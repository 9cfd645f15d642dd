import Mathlib.Algebra.BigOperators.Group.Finset.Piecewise
import Mathlib.Data.Finset.Max
import Mathlib.Logic.Relation

/-!
# Schedules

Tasks that run after others.  A task is started when those that it runs after have succeeded, as
long as none has failed; tasks that have been started run side by side and end in any order.

What is proved here:

* `succeeded_of_before` — what has been started comes after everything that it depends on;
* `waits_for_iff` — and after nothing else: it can be started when only that has run;
* `steps_le` — a run ends after two steps for each task;
* `final_iff` — it ends with a failure or when all tasks have succeeded.
-/

namespace Schedule

inductive Status
  | waiting
  | running
  | succeeded
  | failed
  deriving DecidableEq, Repr

/-- Tasks, and for each those that it runs after. -/
structure Plan (α : Type*) where
  tasks : Finset α
  after : α → List α

abbrev State (α : Type*) := α → Status

variable {α : Type*} [DecidableEq α] {plan : Plan α} {s s' : State α} {t u : α}

/-- A task is started, or one that is running ends. -/
inductive Step (plan : Plan α) (s : State α) : State α → Prop
  | start {t : α} (htask : t ∈ plan.tasks) (hwaiting : s t = .waiting)
      (hafter : ∀ u ∈ plan.after t, s u = .succeeded) (hfailed : ∀ u, s u ≠ .failed) :
      Step plan s (Function.update s t .running)
  | finish {t : α} (hrunning : s t = .running) {outcome : Status}
      (houtcome : outcome = .succeeded ∨ outcome = .failed) :
      Step plan s (Function.update s t outcome)

def init : State α := fun _ => .waiting

def Reachable (plan : Plan α) (s : State α) : Prop := Relation.ReflTransGen (Step plan) init s

/-- `u` has to succeed before `t` is started. -/
def Before (plan : Plan α) (u t : α) : Prop := Relation.TransGen (fun u t => u ∈ plan.after t) u t

omit [DecidableEq α] in
theorem before_iff : Before plan u t ↔ ∃ v ∈ plan.after t, u = v ∨ Before plan u v := by
  constructor
  · intro h
    cases h with
    | single hmem => exact ⟨u, hmem, .inl rfl⟩
    | @tail v _ hbefore hmem => exact ⟨v, hmem, .inr hbefore⟩
  · rintro ⟨v, hmem, rfl | hbefore⟩
    · exact .single hmem
    · exact hbefore.tail hmem

/-! ## What has been started -/

/-- What has been started is a task, and comes after what it runs after. -/
structure Ordered (plan : Plan α) (s : State α) : Prop where
  task : ∀ t, s t ≠ .waiting → t ∈ plan.tasks
  after : ∀ t, s t ≠ .waiting → ∀ u ∈ plan.after t, s u = .succeeded

omit [DecidableEq α] in
theorem ordered_init : Ordered plan init :=
  ⟨fun _ h => absurd rfl h, fun _ h => absurd rfl h⟩

/-- A task that has succeeded stays so. -/
theorem Step.succeeded (h : Step plan s s') (ht : s t = .succeeded) : s' t = .succeeded := by
  cases h with
  | @start u _ hwaiting _ _ =>
    have hne : t ≠ u := fun heq => by simp [← heq, ht] at hwaiting
    rw [Function.update_of_ne hne, ht]
  | @finish u hrunning _ _ =>
    have hne : t ≠ u := fun heq => by simp [← heq, ht] at hrunning
    rw [Function.update_of_ne hne, ht]

theorem Ordered.step (hs : Ordered plan s) (h : Step plan s s') : Ordered plan s' := by
  have hstable : ∀ u, s u = .succeeded → s' u = .succeeded := fun u hu => h.succeeded hu
  cases h with
  | @start t htask hwaiting hafter hfailed =>
    refine ⟨fun v hv => ?_, fun v hv u hu => hstable u ?_⟩
    · by_cases heq : v = t
      · exact heq ▸ htask
      · rw [Function.update_of_ne heq] at hv
        exact hs.task v hv
    · by_cases heq : v = t
      · exact hafter u (heq ▸ hu)
      · rw [Function.update_of_ne heq] at hv
        exact hs.after v hv u hu
  | @finish t hrunning outcome houtcome =>
    have hstarted : ∀ v, Function.update s t outcome v ≠ .waiting → s v ≠ .waiting := by
      intro v hv
      by_cases heq : v = t
      · simp [heq, hrunning]
      · rwa [Function.update_of_ne heq] at hv
    exact ⟨fun v hv => hs.task v (hstarted v hv),
      fun v hv u hu => hstable u (hs.after v (hstarted v hv) u hu)⟩

theorem ordered_of_reachable (h : Reachable plan s) : Ordered plan s := by
  induction h with
  | refl => exact ordered_init
  | tail _ hstep ih => exact ih.step hstep

/-- What has been started comes after everything that it depends on. -/
theorem succeeded_of_before (h : Reachable plan s) (hbefore : Before plan u t)
    (ht : s t ≠ .waiting) : s u = .succeeded := by
  have hs := ordered_of_reachable h
  induction hbefore with
  | single hmem => exact hs.after _ ht _ hmem
  | tail _ hmem ih => exact ih (by simp [hs.after _ ht _ hmem])

/-! ## What can be started -/

/-- Tasks run after tasks of a lower rank. -/
structure Ranked (plan : Plan α) (rank : α → ℕ) : Prop where
  task : ∀ t ∈ plan.tasks, ∀ u ∈ plan.after t, u ∈ plan.tasks
  lt : ∀ t ∈ plan.tasks, ∀ u ∈ plan.after t, rank u < rank t

/-- The tasks of `done` have succeeded, and nothing else has been started. -/
def only (done : Finset α) : State α := fun t => if t ∈ done then .succeeded else .waiting

theorem reachable_insert {done : Finset α} (h : Reachable plan (only done)) (ht : t ∈ plan.tasks)
    (hnot : t ∉ done) (hafter : ∀ u ∈ plan.after t, u ∈ done) :
    Reachable plan (Function.update (only done) t .running) ∧
      Reachable plan (only (insert t done)) := by
  have hstart : Step plan (only done) (Function.update (only done) t .running) :=
    .start ht (if_neg hnot) (fun u hu => if_pos (hafter u hu)) fun u => by
      unfold only
      split <;> simp
  have hfinish : Step plan (Function.update (only done) t .running)
      (Function.update (Function.update (only done) t .running) t .succeeded) :=
    .finish (Function.update_self ..) (.inl rfl)
  have hlast : Function.update (Function.update (only done) t .running) t .succeeded =
      only (insert t done) := by
    rw [Function.update_idem]
    funext u
    by_cases heq : u = t
    · simp [heq, only]
    · simp [only, heq]
  rw [hlast] at hfinish
  exact ⟨h.tail hstart, (h.tail hstart).tail hfinish⟩

/-- Any tasks can be run that include what they run after. -/
theorem reachable_only {rank : α → ℕ} (hrank : Ranked plan rank) {done : Finset α}
    (htasks : done ⊆ plan.tasks) (hclosed : ∀ t ∈ done, ∀ u ∈ plan.after t, u ∈ done) :
    Reachable plan (only done) := by
  induction hcard : done.card generalizing done with
  | zero =>
    obtain rfl := Finset.card_eq_zero.1 hcard
    exact .refl
  | succ n ih =>
    -- the task of the highest rank comes last
    have hne : done.Nonempty := Finset.card_pos.1 (by omega)
    obtain ⟨t, ht, hmax⟩ := done.exists_max_image rank hne
    have herase : ∀ v ∈ done.erase t, ∀ u ∈ plan.after v, u ∈ done.erase t := by
      intro v hv u hu
      have hdone := Finset.mem_of_mem_erase hv
      refine Finset.mem_erase.2 ⟨?_, hclosed v hdone u hu⟩
      rintro rfl
      exact absurd (hrank.lt v (htasks hdone) u hu) (not_lt.2 (hmax v hdone))
    have hreach := ih ((done.erase_subset t).trans htasks) herase
      (by rw [Finset.card_erase_of_mem ht]; omega)
    have hafter : ∀ u ∈ plan.after t, u ∈ done.erase t := fun u hu =>
      Finset.mem_erase.2 ⟨fun heq => absurd (hrank.lt t (htasks ht) u hu) (by simp [heq]),
        hclosed t ht u hu⟩
    have hinsert := (reachable_insert hreach (htasks ht) (Finset.notMem_erase t done) hafter).2
    rwa [Finset.insert_erase ht] at hinsert

/-- A task can be started when nothing has run but what it depends on. -/
theorem exists_reachable_between {rank : α → ℕ} (hrank : Ranked plan rank) (ht : t ∈ plan.tasks) :
    ∃ s, Reachable plan s ∧ s t = .running ∧
      ∀ u, u ≠ t → (s u = .succeeded ∧ Before plan u t) ∨ (s u = .waiting ∧ ¬ Before plan u t) := by
  classical
  have hmem {u v : α} (hbefore : Before plan u v) (hv : v ∈ plan.tasks) : u ∈ plan.tasks := by
    induction hbefore with
    | single hu => exact hrank.task _ hv _ hu
    | tail _ hu ih => exact ih (hrank.task _ hv _ hu)
  have hlt {u v : α} (hbefore : Before plan u v) (hv : v ∈ plan.tasks) : rank u < rank v := by
    induction hbefore with
    | single hu => exact hrank.lt _ hv _ hu
    | tail _ hu ih => exact (ih (hrank.task _ hv _ hu)).trans (hrank.lt _ hv _ hu)
  have hdone : ∀ u, u ∈ plan.tasks.filter (Before plan · t) ↔ Before plan u t := fun u => by
    rw [Finset.mem_filter]
    exact ⟨fun h => h.2, fun h => ⟨hmem h ht, h⟩⟩
  have hreach := reachable_only hrank (Finset.filter_subset (Before plan · t) plan.tasks)
    fun v hv u hu => (hdone u).2 (.head hu ((hdone v).1 hv))
  have hstart := (reachable_insert hreach ht
    (fun h => absurd (hlt ((hdone t).1 h) ht) (lt_irrefl _))
    fun u hu => (hdone u).2 (.single hu)).1
  refine ⟨_, hstart, Function.update_self .., fun u hne => ?_⟩
  rw [Function.update_of_ne hne]
  by_cases hbefore : Before plan u t
  · exact .inl ⟨if_pos ((hdone u).2 hbefore), hbefore⟩
  · exact .inr ⟨if_neg fun h => hbefore ((hdone u).1 h), hbefore⟩

/-- Whenever `t` has been started, `u` has succeeded. -/
def WaitsFor (plan : Plan α) (t u : α) : Prop :=
  ∀ s, Reachable plan s → s t ≠ .waiting → s u = .succeeded

/-- A task waits for what it depends on, and for nothing else. -/
theorem waits_for_iff {rank : α → ℕ} (hrank : Ranked plan rank) (ht : t ∈ plan.tasks)
    (hne : u ≠ t) : WaitsFor plan t u ↔ Before plan u t := by
  constructor
  · intro h
    obtain ⟨s, hreach, hrunning, hothers⟩ := exists_reachable_between hrank ht
    have hu := h s hreach (by simp [hrunning])
    rcases hothers u hne with ⟨-, hbefore⟩ | ⟨hwaiting, -⟩
    · exact hbefore
    · simp [hwaiting] at hu
  · exact fun hbefore s hreach => succeeded_of_before hreach hbefore

/-! ## How a run ends -/

/-- The steps that a task still needs. -/
def Status.left : Status → ℕ
  | .waiting => 2
  | .running => 1
  | .succeeded | .failed => 0

theorem sum_left_update (ht : t ∈ plan.tasks) (status : Status) :
    ∑ u ∈ plan.tasks, (Function.update s t status u).left + (s t).left =
      ∑ u ∈ plan.tasks, (s u).left + status.left := by
  have hrest : ∑ u ∈ plan.tasks.erase t, (Function.update s t status u).left =
      ∑ u ∈ plan.tasks.erase t, (s u).left :=
    Finset.sum_congr rfl fun u hu => by rw [Function.update_of_ne (Finset.ne_of_mem_erase hu)]
  rw [← Finset.add_sum_erase _ _ ht, ← Finset.add_sum_erase _ (fun u => (s u).left) ht, hrest,
    Function.update_self]
  omega

@[simp] theorem Status.left_waiting : Status.waiting.left = 2 := rfl

@[simp] theorem Status.left_running : Status.running.left = 1 := rfl

@[simp] theorem Status.left_succeeded : Status.succeeded.left = 0 := rfl

@[simp] theorem Status.left_failed : Status.failed.left = 0 := rfl

/-- Each step is one that a task needed. -/
theorem Step.sum_left (hs : Ordered plan s) (h : Step plan s s') :
    ∑ u ∈ plan.tasks, (s' u).left + 1 = ∑ u ∈ plan.tasks, (s u).left := by
  cases h with
  | @start t htask hwaiting hafter hfailed =>
    have hsum := sum_left_update (s := s) htask .running
    simp only [hwaiting, Status.left_waiting, Status.left_running] at hsum
    omega
  | @finish t hrunning outcome houtcome =>
    have hsum := sum_left_update (s := s) (hs.task t (by simp [hrunning])) outcome
    have hleft : outcome.left = 0 := by rcases houtcome with rfl | rfl <;> rfl
    rw [hrunning, Status.left_running, hleft] at hsum
    omega

/-- A run of a number of steps. -/
inductive Run (plan : Plan α) : ℕ → State α → Prop
  | init : Run plan 0 init
  | step {n : ℕ} {s s' : State α} : Run plan n s → Step plan s s' → Run plan (n + 1) s'

theorem Run.reachable {n : ℕ} (h : Run plan n s) : Reachable plan s := by
  induction h with
  | init => exact .refl
  | step _ hstep ih => exact ih.tail hstep

theorem exists_run_of_reachable (h : Reachable plan s) : ∃ n, Run plan n s := by
  induction h with
  | refl => exact ⟨0, .init⟩
  | tail _ hstep ih =>
    obtain ⟨n, hn⟩ := ih
    exact ⟨n + 1, hn.step hstep⟩

/-- The steps of a run, and those that are left. -/
theorem Run.add_sum_left {n : ℕ} (h : Run plan n s) :
    n + ∑ u ∈ plan.tasks, (s u).left = 2 * plan.tasks.card := by
  induction h with
  | init => simp [Schedule.init, Status.left, mul_comm]
  | step hrun hstep ih =>
    have hleft := hstep.sum_left (ordered_of_reachable hrun.reachable)
    omega

/-- A run ends after two steps for each task. -/
theorem steps_le {n : ℕ} (h : Run plan n s) : n ≤ 2 * plan.tasks.card := by
  have hsum := h.add_sum_left
  omega

/-- All tasks can be run, with two steps for each. -/
theorem run_all {rank : α → ℕ} (hrank : Ranked plan rank) :
    Run plan (2 * plan.tasks.card) (only plan.tasks) := by
  obtain ⟨n, hn⟩ :=
    exists_run_of_reachable (reachable_only hrank (Finset.Subset.refl _) hrank.task)
  have hnone : ∑ u ∈ plan.tasks, (only plan.tasks u).left = 0 :=
    Finset.sum_eq_zero fun u hu => by simp [only, hu]
  have hsum := hn.add_sum_left
  rw [hnone, Nat.add_zero] at hsum
  exact hsum ▸ hn

/-- Nothing is left to do. -/
def Final (plan : Plan α) (s : State α) : Prop := ∀ s', ¬ Step plan s s'

/-- A run ends when nothing is running, and either a task has failed or all have succeeded. -/
theorem final_iff {rank : α → ℕ} (hrank : Ranked plan rank) (h : Reachable plan s) :
    Final plan s ↔ (∀ t, s t ≠ .running) ∧
      ((∃ t ∈ plan.tasks, s t = .failed) ∨ ∀ t ∈ plan.tasks, s t = .succeeded) := by
  have hs := ordered_of_reachable h
  constructor
  · intro hfinal
    have hrunning : ∀ t, s t ≠ .running := fun t ht => hfinal _ (.finish ht (.inl rfl))
    refine ⟨hrunning, ?_⟩
    by_contra hnot
    push Not at hnot
    obtain ⟨hfailed, t, ht, hne⟩ := hnot
    have hnofail : ∀ u, s u ≠ .failed := fun u hu =>
      hfailed u (hs.task u (by simp [hu])) hu
    -- among those that are waiting, the one of the lowest rank can be started
    have hwaiting : ∀ u, s u ≠ .succeeded → s u = .waiting := fun u hu => by
      have hu₁ := hrunning u
      have hu₂ := hnofail u
      cases hstatus : s u <;> simp_all
    have hnonempty : (plan.tasks.filter (s · = .waiting)).Nonempty :=
      ⟨t, Finset.mem_filter.2 ⟨ht, hwaiting t hne⟩⟩
    obtain ⟨v, hv, hmin⟩ := Finset.exists_min_image _ rank hnonempty
    obtain ⟨hv, hvwaiting⟩ := Finset.mem_filter.1 hv
    refine hfinal _ (.start hv hvwaiting (fun u hu => ?_) hnofail)
    by_contra hnotyet
    have hle := hmin u (Finset.mem_filter.2 ⟨hrank.task v hv u hu, hwaiting u hnotyet⟩)
    exact absurd (hrank.lt v hv u hu) (by omega)
  · rintro ⟨hrunning, hend⟩ s' hstep
    cases hstep with
    | finish ht _ => exact hrunning _ ht
    | @start t htask hwaiting _ hfailed =>
      rcases hend with ⟨u, -, hu⟩ | hall
      · exact hfailed u hu
      · simp [hall t htask] at hwaiting

end Schedule
