import Mathlib.Logic.Function.Basic

/-!
# Processes that share a service

A sequential process makes calls to a service that it shares with others: each call is
atomic, and between two calls of a process the others may make theirs.  What a process
remembers of its own calls is a ghost state, and a discipline says which calls it may make
in view of that.

What is proved here:

* `Process.follows_bind` — the rule of sequential composition for a discipline;
* `Process.alone_induction` and `Process.allowed_of_mem_calls` — what a process that runs
  alone keeps, and what each of its calls was allowed to be;
* `Process.follows_translate` — a process that makes its calls through another interface;
* `System.run_store` — the store after a run is the start with the calls of the history;
* `System.run_legal` — when every process follows its discipline, so does the history of
  every run, whatever the schedule.
-/

/-- What can be asked of a service, and what it answers. -/
structure Interface where
  Call : Type
  Answer : Call → Type

/-- A process ends with a result, or makes a call and goes on with the answer. -/
inductive Process (I : Interface) (α : Type) : Type
  | done (result : α)
  | call (c : I.Call) (next : I.Answer c → Process I α)

/-- An implementation of an interface over a store: every call is atomic. -/
structure Service (I : Interface) (σ : Type) where
  perform : σ → (c : I.Call) → I.Answer c × σ

/-- The calls that a process may make in view of a ghost state, and how the ghost state
follows the calls. -/
structure Discipline (I : Interface) (Ghost : Type) where
  Allowed : Ghost → I.Call → Prop
  update : Ghost → (c : I.Call) → I.Answer c → Ghost

namespace Process

variable {I : Interface} {α β ε σ Ghost : Type} {D : Discipline I Ghost}

/-! ## Sequential composition -/

def bind : Process I α → (α → Process I β) → Process I β
  | done a, f => f a
  | call c next, f => call c fun r => (next r).bind f

instance : Monad (Process I) where
  pure := done
  bind := bind

theorem bind_done (p : Process I α) : p.bind done = p := by
  induction p with
  | done a => rfl
  | call c next ih =>
    show call c (fun r => (next r).bind done) = call c next
    exact congrArg (call c) (funext ih)

theorem bind_bind {γ : Type} (p : Process I α) (f : α → Process I β) (g : β → Process I γ) :
    (p.bind f).bind g = p.bind fun a => (f a).bind g := by
  induction p with
  | done a => rfl
  | call c next ih =>
    show call c (fun r => ((next r).bind f).bind g) = call c _
    exact congrArg (call c) (funext ih)

instance : LawfulMonad (Process I) := LawfulMonad.mk' _
  (fun p => bind_done p) (fun _ _ => rfl) (fun p f g => bind_bind p f g)

/-- A single call. -/
def perform (c : I.Call) : Process I (I.Answer c) := call c done

/-- The result of a process that runs alone, and the store that it leaves. -/
def eval (S : Service I σ) : Process I α → σ → α × σ
  | done a, store => (a, store)
  | call c next, store => (next (S.perform store c).1).eval S (S.perform store c).2

theorem eval_bind (S : Service I σ) (p : Process I α) (f : α → Process I β) (store : σ) :
    (p.bind f).eval S store = (f (p.eval S store).1).eval S (p.eval S store).2 := by
  induction p generalizing store with
  | done a => rfl
  | call c next ih =>
    show ((next (S.perform store c).1).bind f).eval S (S.perform store c).2 = _
    rw [ih]
    rfl

/-- A process with exceptions that runs alone goes on after a result and stops after an
exception. -/
theorem eval_run_bind (S : Service I σ) (p : ExceptT ε (Process I) α)
    (f : α → ExceptT ε (Process I) β) (store : σ) :
    (p >>= f).run.eval S store =
      match p.run.eval S store with
      | (.ok a, left) => (f a).run.eval S left
      | (.error e, left) => (.error e, left) := by
  show (Process.bind p.run _).eval S store = _
  rw [eval_bind]
  cases hp : p.run.eval S store with
  | mk r left => cases r <;> rfl

/-- A call with its answer. -/
abbrev Exchange (I : Interface) := Σ c : I.Call, I.Answer c

/-- The calls of a process that runs alone, in order. -/
def calls (S : Service I σ) : Process I α → σ → List (Exchange I)
  | done _, _ => []
  | call c next, store =>
    ⟨c, (S.perform store c).1⟩ :: (next (S.perform store c).1).calls S (S.perform store c).2

theorem calls_bind (S : Service I σ) (p : Process I α) (f : α → Process I β) (store : σ) :
    (p.bind f).calls S store =
      p.calls S store ++ (f (p.eval S store).1).calls S (p.eval S store).2 := by
  induction p generalizing store with
  | done a => rfl
  | call c next ih =>
    show _ :: ((next (S.perform store c).1).bind f).calls S (S.perform store c).2 = _
    rw [ih]
    rfl

/-- After an exception there are no more calls. -/
theorem calls_run_bind (S : Service I σ) (p : ExceptT ε (Process I) α)
    (f : α → ExceptT ε (Process I) β) (store : σ) :
    (p >>= f).run.calls S store = p.run.calls S store ++
      match p.run.eval S store with
      | (.ok a, left) => (f a).run.calls S left
      | (.error _, _) => [] := by
  show (Process.bind p.run _).calls S store = _
  rw [calls_bind]
  cases hp : p.run.eval S store with
  | mk r left => cases r <;> rfl

/-! ## Processes that follow a discipline -/

/-- From a ghost state on, every call of the process is allowed, and it ends as stated. -/
def Follows (D : Discipline I Ghost) (post : Ghost → α → Prop) : Process I α → Ghost → Prop
  | done a, g => post g a
  | call c next, g => D.Allowed g c ∧ ∀ r, (next r).Follows D post (D.update g c r)

theorem follows_bind {p : Process I α} {f : α → Process I β} {g : Ghost}
    {mid : Ghost → α → Prop} {post : Ghost → β → Prop} (hp : p.Follows D mid g)
    (hf : ∀ g a, mid g a → (f a).Follows D post g) : (p.bind f).Follows D post g := by
  induction p generalizing g with
  | done a => exact hf g a hp
  | call c next ih => exact ⟨hp.1, fun r => ih r (hp.2 r)⟩

/-- A discipline that allows more is followed as well. -/
theorem follows_mono {D' : Discipline I Ghost} {p : Process I α} {g : Ghost}
    {post post' : Ghost → α → Prop} (hp : p.Follows D post g)
    (hallowed : ∀ g c, D.Allowed g c → D'.Allowed g c)
    (hupdate : ∀ g c r, D'.update g c r = D.update g c r)
    (hpost : ∀ g a, post g a → post' g a) : p.Follows D' post' g := by
  induction p generalizing g with
  | done a => exact hpost g a hp
  | call c next ih =>
    refine ⟨hallowed g c hp.1, fun r => ?_⟩
    rw [hupdate]
    exact ih r (hp.2 r)

/-! ## Processes over another interface -/

section Translate

variable {I' : Interface} {Ghost' : Type} {D' : Discipline I' Ghost'}

/-- The process that makes each call as one of another interface. -/
def translate (f : I.Call → I'.Call) (answer : ∀ c, I'.Answer (f c) → I.Answer c) :
    Process I α → Process I' α
  | done a => done a
  | call c next => call (f c) fun r => (next (answer c r)).translate f answer

/-- A translated process follows the discipline of the other interface that agrees with its
own in what is remembered. -/
theorem follows_translate {f : I.Call → I'.Call} {answer : ∀ c, I'.Answer (f c) → I.Answer c}
    (view : Ghost' → Ghost) (hallowed : ∀ g c, D.Allowed (view g) c → D'.Allowed g (f c))
    (hupdate : ∀ g c r, view (D'.update g (f c) r) = D.update (view g) c (answer c r))
    {p : Process I α} {g : Ghost'} {post : Ghost → α → Prop} (hp : p.Follows D post (view g)) :
    (p.translate f answer).Follows D' (fun g => post (view g)) g := by
  induction p generalizing g with
  | done a => exact hp
  | call c next ih =>
    refine ⟨hallowed g c hp.1, fun r => ih _ ?_⟩
    rw [hupdate]
    exact hp.2 _

end Translate

/-! ## A process that runs alone -/

/-- The ghost state after some calls. -/
def ghostAfter (D : Discipline I Ghost) (g : Ghost) (exchanges : List (Exchange I)) : Ghost :=
  exchanges.foldl (fun g e => D.update g e.1 e.2) g

/-- What every allowed call of a process that runs alone keeps, holds at its end. -/
theorem alone_induction {S : Service I σ} {J : Ghost → σ → Prop} {p : Process I α} {g : Ghost}
    {store : σ} {post : Ghost → α → Prop} (hp : p.Follows D post g) (h : J g store)
    (hstep : ∀ g store c, J g store → D.Allowed g c →
      J (D.update g c (S.perform store c).1) (S.perform store c).2) :
    ∃ g, J g (p.eval S store).2 ∧ post g (p.eval S store).1 := by
  induction p generalizing g store with
  | done a => exact ⟨g, h, hp⟩
  | call c next ih => exact ih _ (hp.2 _) (hstep g store c h hp.1)

/-- Every call of a process that runs alone was allowed after those before it, in a state
that the invariant holds in. -/
theorem allowed_of_mem_calls {S : Service I σ} {J : Ghost → σ → Prop} {p : Process I α}
    {g : Ghost} {store : σ} {post : Ghost → α → Prop} (hp : p.Follows D post g)
    (h : J g store)
    (hstep : ∀ g store c, J g store → D.Allowed g c →
      J (D.update g c (S.perform store c).1) (S.perform store c).2)
    {before after : List (Exchange I)} {e : Exchange I}
    (he : p.calls S store = before ++ e :: after) :
    D.Allowed (ghostAfter D g before) e.1 ∧ ∃ store, J (ghostAfter D g before) store := by
  induction p generalizing g store before with
  | done a => simp [calls] at he
  | call c next ih =>
    cases before with
    | nil =>
      obtain ⟨rfl, -⟩ := List.cons.inj he
      exact ⟨hp.1, store, h⟩
    | cons e' before =>
      obtain ⟨rfl, htail⟩ := List.cons.inj he
      exact ih _ (hp.2 _) (hstep g store c h hp.1) htail

/-- A process with exceptions follows a discipline when it does so as a process; nothing is
said about how it ends with an exception. -/
def Safe (D : Discipline I Ghost) (post : Ghost → α → Prop) (p : ExceptT ε (Process I) α)
    (g : Ghost) : Prop :=
  Follows D (fun g r => ∀ a, r = .ok a → post g a) p.run g

variable {g : Ghost} {post : Ghost → α → Prop} {post' : Ghost → β → Prop}

theorem safe_pure {a : α} (h : post g a) : Safe D post (pure a : ExceptT ε (Process I) α) g :=
  fun _ ha => Except.ok.inj ha ▸ h

theorem safe_throw (e : ε) : Safe D post (throw e : ExceptT ε (Process I) α) g :=
  fun _ ha => nomatch ha

theorem safe_mk {r : Except ε α} (h : ∀ a, r = .ok a → post g a) :
    Safe D post (ExceptT.mk (done r) : ExceptT ε (Process I) α) g := h

/-- A single call is safe when it is allowed. -/
theorem safe_perform {c : I.Call} {post : Ghost → I.Answer c → Prop} (h : D.Allowed g c)
    (hpost : ∀ r, post (D.update g c r) r) :
    Safe D post (ExceptT.lift (perform c) : ExceptT ε (Process I) (I.Answer c)) g :=
  ⟨h, fun r _ ha => Except.ok.inj ha ▸ hpost r⟩

theorem safe_bind {p : ExceptT ε (Process I) α} {f : α → ExceptT ε (Process I) β}
    {Q : Ghost → α → Prop} (hp : Safe D Q p g) (hf : ∀ g a, Q g a → Safe D post' (f a) g) :
    Safe D post' (p >>= f) g := by
  refine follows_bind hp fun g r hr => ?_
  cases r with
  | ok a => exact hf g a (hr a rfl)
  | error e => exact fun _ ha => nomatch ha

/-- A loop keeps what its body keeps. -/
theorem safe_forM {J : Ghost → Prop} {f : α → ExceptT ε (Process I) PUnit} (l : List α)
    (hf : ∀ a ∈ l, ∀ g, J g → Safe D (fun g _ => J g) (f a) g) (hg : J g) :
    Safe D (fun g _ => J g) (l.forM f) g := by
  induction l generalizing g with
  | nil => exact safe_pure hg
  | cons a l ih =>
    refine safe_bind (hf a (List.mem_cons_self ..) g hg) fun g _ hg => ?_
    exact ih (fun b hb => hf b (List.mem_cons_of_mem a hb)) hg

/-- Whether a process has come to its end. -/
def finished : Process I α → Bool
  | done _ => true
  | call _ _ => false

/-- The call that a process makes next. -/
def nextCall : Process I α → Option I.Call
  | done _ => none
  | call c _ => some c

/-- A process that follows a discipline is allowed to make its next call. -/
theorem Follows.allowed {p : Process I α} {g : Ghost} {post : Ghost → α → Prop}
    (h : p.Follows D post g) {c : I.Call} (hc : p.nextCall = some c) : D.Allowed g c := by
  cases p with
  | done a => exact nomatch hc
  | call c' next =>
    obtain rfl := Option.some.inj hc
    exact h.1

theorem not_finished_of_nextCall {p : Process I α} {c : I.Call} (h : p.nextCall = some c) :
    ¬ p.finished := by
  cases p with
  | done a => exact nomatch h
  | call c' next => exact Bool.false_ne_true

end Process

/-! ## Runs -/

/-- A call that a client made, with the answer. -/
structure Event (I : Interface) (ι : Type) where
  client : ι
  call : I.Call
  answer : I.Answer call

/-- The processes of several clients over one store, and what happened so far, newest
first. -/
structure System (I : Interface) (σ ι α : Type) where
  store : σ
  processes : ι → Process I α
  history : List (Event I ι)

namespace System

variable {I : Interface} {σ ι α Ghost : Type} [DecidableEq ι]

def start (store : σ) (processes : ι → Process I α) : System I σ ι α :=
  ⟨store, processes, []⟩

/-- The next call of a client; a client that is done does nothing. -/
def step (S : Service I σ) (s : System I σ ι α) (i : ι) : System I σ ι α :=
  match s.processes i with
  | .done _ => s
  | .call c next =>
    { store := (S.perform s.store c).2
      processes := Function.update s.processes i (next (S.perform s.store c).1)
      history := ⟨i, c, (S.perform s.store c).1⟩ :: s.history }

section Step

variable {S : Service I σ} {s : System I σ ι α} {i j : ι} {c : I.Call}
  {next : I.Answer c → Process I α}

theorem store_step (hp : s.processes i = .call c next) :
    (step S s i).store = (S.perform s.store c).2 := by
  simp only [step, hp]

theorem history_step (hp : s.processes i = .call c next) :
    (step S s i).history = ⟨i, c, (S.perform s.store c).1⟩ :: s.history := by
  simp only [step, hp]

theorem step_processes_of_ne (hj : j ≠ i) : (step S s i).processes j = s.processes j := by
  unfold step
  split
  · rfl
  · exact Function.update_of_ne hj ..

theorem step_of_done {a : α} (hp : s.processes i = .done a) : step S s i = s := by
  simp only [step, hp]

end Step

/-- The clients make their calls in the order of the schedule. -/
def run (S : Service I σ) (s : System I σ ι α) (schedule : List ι) : System I σ ι α :=
  schedule.foldl (step S) s

/-- The store after the calls of a history. -/
def replay (S : Service I σ) (store : σ) : List (Event I ι) → σ
  | [] => store
  | e :: older => (S.perform (replay S store older) e.call).2

/-- What a client remembers of its calls. -/
def memory (D : Discipline I Ghost) (g : Ghost) (i : ι) : List (Event I ι) → Ghost
  | [] => g
  | e :: older =>
    if e.client = i then D.update (memory D g i older) e.call e.answer else memory D g i older

@[simp] theorem memory_self (D : Discipline I Ghost) (g : Ghost) (e : Event I ι)
    (older : List (Event I ι)) :
    memory D g e.client (e :: older) = D.update (memory D g e.client older) e.call e.answer :=
  if_pos rfl

theorem memory_of_ne (D : Discipline I Ghost) (g : Ghost) {i : ι} {e : Event I ι}
    (hi : e.client ≠ i) (older : List (Event I ι)) :
    memory D g i (e :: older) = memory D g i older :=
  if_neg hi

theorem memory_step {S : Service I σ} {s : System I σ ι α} {i : ι} {c : I.Call}
    {next : I.Answer c → Process I α} (D : Discipline I Ghost) (g : Ghost)
    (hp : s.processes i = .call c next) :
    memory D g i (step S s i).history =
      D.update (memory D g i s.history) c (S.perform s.store c).1 := by
  rw [history_step hp, memory, if_pos rfl]

theorem memory_step_of_ne {S : Service I σ} {s : System I σ ι α} {i j : ι}
    (D : Discipline I Ghost) (g : Ghost) (hj : j ≠ i) :
    memory D g j (step S s i).history = memory D g j s.history := by
  unfold step
  split
  · rfl
  · exact memory_of_ne D g hj.symm _

/-- What a client's own calls keep, it remembers. -/
theorem memory_induction {D : Discipline I Ghost} {g : Ghost} {i : ι} {P : Ghost → Prop} (h : P g)
    {history : List (Event I ι)}
    (hstep : ∀ e ∈ history, e.client = i → ∀ g, P g → P (D.update g e.call e.answer)) :
    P (memory D g i history) := by
  induction history with
  | nil => exact h
  | cons e older ih =>
    have hold := ih fun e he => hstep e (List.mem_cons_of_mem _ he)
    by_cases hi : e.client = i
    · rw [memory, if_pos hi]
      exact hstep e (List.mem_cons_self ..) hi _ hold
    · rwa [memory_of_ne D g hi]

/-- A client without calls remembers what it started with. -/
theorem memory_eq_start {D : Discipline I Ghost} {g : Ghost} {i : ι} {history : List (Event I ι)}
    (h : ∀ e ∈ history, e.client ≠ i) : memory D g i history = g :=
  memory_induction (P := (· = g)) rfl fun e he hi => absurd hi (h e he)

/-- Every answer of the history is that of the service, and every call was allowed in view
of what its client remembered. -/
def Legal (S : Service I σ) (store : σ) (D : ι → Discipline I Ghost) (g : Ghost) :
    List (Event I ι) → Prop
  | [] => True
  | e :: older => e.answer = (S.perform (replay S store older) e.call).1 ∧
      (D e.client).Allowed (memory (D e.client) g e.client older) e.call ∧
      Legal S store D g older

/-- What holds at the start and is kept by every step holds after every run. -/
theorem run_induction {S : Service I σ} {s : System I σ ι α} {P : System I σ ι α → Prop}
    (h : P s) (hstep : ∀ s i, P s → P (step S s i)) (schedule : List ι) :
    P (run S s schedule) := by
  induction schedule generalizing s with
  | nil => exact h
  | cons i schedule ih => exact ih (hstep s i h)

theorem run_store (S : Service I σ) (store : σ) (processes : ι → Process I α)
    (schedule : List ι) :
    (run S (start store processes) schedule).store =
      replay S store (run S (start store processes) schedule).history := by
  refine run_induction (P := fun s => s.store = replay S store s.history) rfl
    (fun s i hs => ?_) schedule
  unfold step
  split
  · exact hs
  · rw [replay, ← hs]

/-- What every good step of a run keeps, holds as long as the steps are good. -/
theorem run_induction_while {S : Service I σ} {s : System I σ ι α}
    {G : System I σ ι α → ι → Prop} {P : System I σ ι α → Prop} (h : P s)
    (hstep : ∀ s i, G s i → P s → P (step S s i)) {schedule : List ι}
    (hgood : ∀ taken i, taken ++ [i] <+: schedule → G (run S s taken) i) :
    P (run S s schedule) := by
  induction schedule generalizing s with
  | nil => exact h
  | cons i schedule ih =>
    have hfirst := hgood [] i (List.cons_prefix_cons.2 ⟨rfl, List.nil_prefix⟩)
    refine ih (hstep s i hfirst h) fun taken j htaken => ?_
    exact hgood (i :: taken) j (List.cons_prefix_cons.2 ⟨rfl, htaken⟩)

/-- What is left of the processes follows the disciplines, in view of what was remembered. -/
def AllFollow (D : ι → Discipline I Ghost) (g : Ghost) (post : Ghost → α → Prop)
    (s : System I σ ι α) : Prop :=
  ∀ i, (s.processes i).Follows (D i) post (memory (D i) g i s.history)

theorem AllFollow.step {S : Service I σ} {s : System I σ ι α} {D : ι → Discipline I Ghost}
    {g : Ghost} {post : Ghost → α → Prop} (h : AllFollow D g post s) (i : ι) :
    AllFollow D g post (step S s i) := by
  have hi := h i
  cases hp : s.processes i with
  | done a => rwa [step_of_done hp]
  | call c next =>
    rw [hp] at hi
    intro j
    by_cases hj : j = i
    · subst hj
      rw [memory_step _ _ hp, System.step, hp]
      simp only [Function.update_self]
      exact hi.2 _
    · rw [step_processes_of_ne hj, memory_step_of_ne _ _ hj]
      exact h j

/-- The processes and the history of a run follow the disciplines. -/
theorem run_legal {S : Service I σ} {store : σ} {processes : ι → Process I α}
    {D : ι → Discipline I Ghost} {g : Ghost} {post : Ghost → α → Prop}
    (h : ∀ i, (processes i).Follows (D i) post g) (schedule : List ι) :
    Legal S store D g (run S (start store processes) schedule).history := by
  refine (run_induction (s := start store processes)
    (P := fun s => s.store = replay S store s.history ∧ Legal S store D g s.history ∧
      AllFollow D g post s) ⟨rfl, trivial, h⟩ (fun s i hs => ?_) schedule).2.1
  obtain ⟨hstore, hlegal, hfollow⟩ := hs
  refine and_assoc.1 ⟨?_, hfollow.step i⟩
  have hi := hfollow i
  cases hp : s.processes i with
  | done a =>
    rw [step_of_done hp]
    exact ⟨hstore, hlegal⟩
  | call c next =>
    rw [hp] at hi
    rw [store_step hp, history_step hp]
    exact ⟨by rw [replay, ← hstore], by rw [← hstore], hi.1, hlegal⟩

/-- What happened stays in the history. -/
theorem history_suffix (S : Service I σ) (s : System I σ ι α) (schedule : List ι) :
    s.history <:+ (run S s schedule).history := by
  refine run_induction (P := fun s' => s.history <:+ s'.history) (List.suffix_refl _)
    (fun s' i hs => ?_) schedule
  unfold step
  split
  · exact hs
  · exact hs.trans (List.suffix_cons ..)

theorem run_append (S : Service I σ) (s : System I σ ι α) (first rest : List ι) :
    run S s (first ++ rest) = run S (run S s first) rest :=
  List.foldl_append ..

theorem Legal.allowed {S : Service I σ} {store : σ} {D : ι → Discipline I Ghost} {g : Ghost}
    {h : List (Event I ι)} (hlegal : Legal S store D g h) {e : Event I ι} (he : e ∈ h) :
    ∃ g, (D e.client).Allowed g e.call := by
  induction h with
  | nil => exact absurd he (List.not_mem_nil)
  | cons e' older ih =>
    rcases List.mem_cons.1 he with rfl | he
    · exact ⟨_, hlegal.2.1⟩
    · exact ih hlegal.2.2 he

end System
