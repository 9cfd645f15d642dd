import GardenLinux.Lib.EagerWalk
import GardenLinux.Feat.FeatureSet

/-!
# The traversal `postorderDFS`

The iterative traversal of `bin/garden-feat.go` with its explicit stack, its `hot` and
`seen` sets and its two callbacks, one loop iteration being one step.  The loop ends
because every iteration marks a new name or pops the stack.

What is proved here:

* `pushEdges_eq` and `pushEdges_error` — what the inner loop over the include list does;
* `steps_of_walk` and `error_of_loops` — the machine does what the recursive
  description of the walk says: a completed walk takes the pending names off the
  stack, a loop ends in the error that names it;
* `dfsLoop_of_steps` — the outcome of the loop can be read off any state it passes.
-/

namespace GardenFeat

open Relation

variable {σ : Type*}

/-! ## The machine -/

/-- The two callbacks, with the variables they capture as explicit state. -/
structure Callbacks (σ : Type*) where
  allowVertex : String → σ → Bool × σ
  processVertex : String → σ → σ

/-- The variables of the loop; the top of the stack comes first. -/
structure DfsState (σ : Type*) where
  seen : NameSet
  hot : NameSet
  stack : List String
  env : σ

/-- The loop over an include list, from its last entry to its first: `done`, `seen` and
the stack afterwards. -/
def pushEdges (hot : NameSet) :
    List String → Bool × NameSet × List String → Except FeatError (Bool × NameSet × List String)
  | [], acc => .ok acc
  | e :: es, acc =>
    match pushEdges hot es acc with
    | .error err => .error err
    | .ok (done, seen, stack) =>
      if e ∈ hot then .error (.partOfLoop e)
      else if e ∈ seen then .ok (done, seen, stack)
      else .ok (false, insert e seen, e :: stack)

/-- One iteration of `for stack.Size() > 0`. -/
def dfsStep (g : Graph) (cb : Callbacks σ) (s : DfsState σ) : Except FeatError (DfsState σ) :=
  match s.stack with
  | [] => .ok s
  | v :: rest =>
    let (allowed, env) := cb.allowVertex v s.env
    if allowed then
      let hot := insert v s.hot
      match pushEdges hot (g.edges v) (true, s.seen, v :: rest) with
      | .error err => .error err
      | .ok (done, seen, stack) =>
        if done then
          .ok { seen, hot := hot.erase v, stack := stack.tail, env := cb.processVertex v env }
        else .ok { seen, hot, stack, env }
    else .ok { s with stack := rest, env }

/-- The unmarked names that the graph knows of, and what is on the stack. -/
def DfsState.measure (g : Graph) (s : DfsState σ) : ℕ :=
  2 * (g.universe \ s.seen).card + s.stack.length

/-- The names an inner loop pushes: those not marked, a name listed twice where it is
listed last. -/
theorem pushEdges_eq {hot : NameSet} {es : List String} (h : ∀ e ∈ es, e ∉ hot)
    (seen : NameSet) (stack : List String) :
    pushEdges hot es (true, seen, stack) =
      .ok ((es.dedup.filter (· ∉ seen)).isEmpty, seen ∪ (es.dedup.filter (· ∉ seen)).toFinset,
        es.dedup.filter (· ∉ seen) ++ stack) := by
  induction es with
  | nil => simp [pushEdges]
  | cons e es ih =>
    have he : e ∉ hot := h e (List.mem_cons_self ..)
    rw [pushEdges, ih fun x hx => h x (List.mem_cons_of_mem _ hx)]
    simp only [if_neg he]
    by_cases hes : e ∈ es
    · have hmem : e ∈ seen ∪ (es.dedup.filter (· ∉ seen)).toFinset := by
        simp only [Finset.mem_union, List.mem_toFinset, List.mem_filter, List.mem_dedup,
          decide_eq_true_eq]
        tauto
      rw [if_pos hmem, List.dedup_cons_of_mem hes]
    · rw [List.dedup_cons_of_notMem hes]
      by_cases hseen : e ∈ seen
      · have hmem : e ∈ seen ∪ (es.dedup.filter (· ∉ seen)).toFinset :=
          Finset.mem_union_left _ hseen
        rw [if_pos hmem, List.filter_cons_of_neg (by simpa using hseen)]
      · have hmem : e ∉ seen ∪ (es.dedup.filter (· ∉ seen)).toFinset := by
          simp [hseen, hes]
        rw [if_neg hmem, List.filter_cons_of_pos (by simpa using hseen)]
        simp only [List.isEmpty_cons, List.toFinset_cons, List.cons_append, Finset.union_insert]

/-- The inner loop fails at the last entry that is open. -/
theorem pushEdges_error {hot : NameSet} {es : List String} {w : String}
    (h : es.reverse.find? (· ∈ hot) = some w) (seen : NameSet) (stack : List String) :
    pushEdges hot es (true, seen, stack) = .error (.partOfLoop w) := by
  induction es with
  | nil => simp at h
  | cons e es ih =>
    rw [List.reverse_cons, List.find?_append] at h
    rw [pushEdges]
    cases hfind : es.reverse.find? (· ∈ hot) with
    | some w' =>
      rw [hfind] at h
      obtain rfl : w' = w := by simpa using h
      rw [ih hfind]
    | none =>
      rw [hfind] at h
      have hnone : ∀ x ∈ es, x ∉ hot := by simpa using hfind
      have he : e ∈ hot ∧ e = w := by
        by_cases he : e ∈ hot
        · simpa [he] using h
        · simp [he] at h
      rw [pushEdges_eq hnone, ← he.2]
      simp only [if_pos he.1]

/-- The names an iteration pushes for `v`, top first. -/
def Graph.fresh (g : Graph) (seen : NameSet) (v : String) : List String :=
  (g.edges v).dedup.filter (· ∉ seen)

theorem guarded_fresh (g : Graph) (ignored seen : NameSet) (v : String) :
    (g.guarded ignored).fresh seen v = g.fresh seen v := rfl

/-! ### The four outcomes of an iteration -/

section Step

variable {g : Graph} {cb : Callbacks σ} {seen hot : NameSet} {v : String} {rest : List String}
  {env : σ}

theorem dfsStep_refused (h : (cb.allowVertex v env).1 = false) :
    dfsStep g cb ⟨seen, hot, v :: rest, env⟩ = .ok ⟨seen, hot, rest, (cb.allowVertex v env).2⟩ := by
  simp [dfsStep, h]

theorem dfsStep_loop (h : (cb.allowVertex v env).1 = true) {w : String}
    (hw : (g.edges v).reverse.find? (· ∈ insert v hot) = some w) :
    dfsStep g cb ⟨seen, hot, v :: rest, env⟩ = .error (.partOfLoop w) := by
  simp only [dfsStep, h, if_true, pushEdges_error hw]

theorem dfsStep_done (h : (cb.allowVertex v env).1 = true)
    (hhot : ∀ w ∈ g.edges v, w ∉ insert v hot) (hfresh : g.fresh seen v = []) :
    dfsStep g cb ⟨seen, hot, v :: rest, env⟩ =
      .ok ⟨seen, (insert v hot).erase v, rest, cb.processVertex v (cb.allowVertex v env).2⟩ := by
  have hpush := pushEdges_eq hhot seen (v :: rest)
  rw [← Graph.fresh, hfresh] at hpush
  simp [dfsStep, h, hpush]

theorem dfsStep_push (h : (cb.allowVertex v env).1 = true)
    (hhot : ∀ w ∈ g.edges v, w ∉ insert v hot) (hfresh : g.fresh seen v ≠ []) :
    dfsStep g cb ⟨seen, hot, v :: rest, env⟩ =
      .ok ⟨seen ∪ (g.fresh seen v).toFinset, insert v hot, g.fresh seen v ++ v :: rest,
        (cb.allowVertex v env).2⟩ := by
  have hpush := pushEdges_eq hhot seen (v :: rest)
  rw [← Graph.fresh] at hpush
  have hne : (g.fresh seen v).isEmpty = false := by simpa using hfresh
  simp only [dfsStep, h, if_true, hpush, hne, Bool.false_eq_true, if_false]

end Step

theorem card_fresh (g : Graph) (seen : NameSet) (v : String) :
    (g.universe \ (seen ∪ (g.fresh seen v).toFinset)).card + (g.fresh seen v).length =
      (g.universe \ seen).card := by
  have hnd : (g.fresh seen v).Nodup := (List.nodup_dedup _).filter _
  have hsub : (g.fresh seen v).toFinset ⊆ g.universe \ seen := by
    intro x hx
    obtain ⟨hx₁, hx₂⟩ := List.mem_filter.1 (List.mem_toFinset.1 hx)
    exact Finset.mem_sdiff.2 ⟨Graph.edges_universe (List.mem_dedup.1 hx₁), of_decide_eq_true hx₂⟩
  have hset : g.universe \ (seen ∪ (g.fresh seen v).toFinset) =
      (g.universe \ seen) \ (g.fresh seen v).toFinset := by
    rw [sdiff_sdiff_left]
    rfl
  rw [← List.toFinset_card_of_nodup hnd, hset]
  exact Finset.card_sdiff_add_card_eq_card hsub

/-- Every iteration marks a new name or pops the stack. -/
theorem dfsStep_lt {g : Graph} {cb : Callbacks σ} {s s' : DfsState σ} (hs : s.stack ≠ [])
    (h : dfsStep g cb s = .ok s') : s'.measure g < s.measure g := by
  obtain ⟨seen, hot, stack, env⟩ := s
  cases stack with
  | nil => exact absurd rfl hs
  | cons v rest =>
    cases hallow : (cb.allowVertex v env).1 with
    | false =>
      rw [dfsStep_refused hallow] at h
      cases h
      simp [DfsState.measure]
    | true =>
      cases hfind : (g.edges v).reverse.find? (· ∈ insert v hot) with
      | some w =>
        rw [dfsStep_loop hallow hfind] at h
        cases h
      | none =>
        have hhot : ∀ w ∈ g.edges v, w ∉ insert v hot := by simpa using hfind
        by_cases hfresh : g.fresh seen v = []
        · rw [dfsStep_done hallow hhot hfresh] at h
          cases h
          simp [DfsState.measure]
        · rw [dfsStep_push hallow hhot hfresh] at h
          cases h
          have hcard := card_fresh g seen v
          have hpos : 0 < (g.fresh seen v).length := List.length_pos_of_ne_nil hfresh
          simp only [DfsState.measure, List.length_append, List.length_cons]
          omega

/-- The loop `for stack.Size() > 0`. -/
def dfsLoop (g : Graph) (cb : Callbacks σ) (s : DfsState σ) : Except FeatError (DfsState σ) :=
  if _hs : s.stack = [] then .ok s
  else
    match _h : dfsStep g cb s with
    | .error e => .error e
    | .ok s' => dfsLoop g cb s'
termination_by s.measure g
decreasing_by exact dfsStep_lt _hs _h

/-- `postorderDFS`: the marks and the captured variables afterwards; `none` stands for a
nil `seen`. -/
def postorderDFS (g : Graph) (seen : Option NameSet) (origin : String) (cb : Callbacks σ)
    (env : σ) : Except FeatError (NameSet × σ) :=
  if origin ∈ g.vertices then
    let seen := seen.getD ∅
    if origin ∈ seen then .ok (seen, env)
    else
      match dfsLoop g cb { seen := insert origin seen, hot := ∅, stack := [origin], env } with
      | .error e => .error e
      | .ok s => .ok (s.seen, s.env)
  else .error (.notPartOfGraph origin)

/-! ## Runs of the machine -/

/-- Some iterations lead from one state of the loop to another. -/
def DfsSteps (g : Graph) (cb : Callbacks σ) : DfsState σ → DfsState σ → Prop :=
  ReflTransGen fun s s' => s.stack ≠ [] ∧ dfsStep g cb s = .ok s'

section Runs

variable {g : Graph} {cb : Callbacks σ}

theorem dfsSteps_one {s s' : DfsState σ} (hs : s.stack ≠ []) (h : dfsStep g cb s = .ok s') :
    DfsSteps g cb s s' :=
  ReflTransGen.single ⟨hs, h⟩

theorem dfsLoop_nil {s : DfsState σ} (hs : s.stack = []) : dfsLoop g cb s = .ok s := by
  rw [dfsLoop, dif_pos hs]

theorem dfsLoop_error {s : DfsState σ} (hs : s.stack ≠ []) {e : FeatError}
    (h : dfsStep g cb s = .error e) : dfsLoop g cb s = .error e := by
  rw [dfsLoop, dif_neg hs]
  split
  · rename_i e' he
    rw [h] at he
    cases he
    rfl
  · rename_i s' hs'
    rw [h] at hs'
    cases hs'

/-- The outcome of the loop is the outcome from any state it passes. -/
theorem dfsLoop_of_steps {s s' : DfsState σ} (h : DfsSteps g cb s s') :
    dfsLoop g cb s = dfsLoop g cb s' := by
  induction h with
  | refl => rfl
  | @tail s₁ s₂ _ hstep ih =>
    obtain ⟨hs, hstep⟩ := hstep
    rw [ih, dfsLoop, dif_neg hs]
    split
    · rename_i e he
      rw [hstep] at he
      cases he
    · rename_i s' hs'
      rw [hstep] at hs'
      cases hs'
      rfl

end Runs

/-! ## The machine follows the walk -/

/-- The callbacks decide by an ignore set, and an allowed vertex leaves the captured
variables as they are until it is processed. -/
structure Callbacks.Lawful (cb : Callbacks σ) (ignored : NameSet) : Prop where
  allowed : ∀ v env, v ∉ ignored → cb.allowVertex v env = (true, env)
  refused : ∀ v env, v ∈ ignored → (cb.allowVertex v env).1 = false

/-- What the callbacks do to the captured variables when a vertex leaves the stack. -/
def Callbacks.visit (cb : Callbacks σ) (ignored : NameSet) (env : σ) (v : String) : σ :=
  if v ∈ ignored then (cb.allowVertex v env).2 else cb.processVertex v env

section Simulation

variable {g : Graph} {cb : Callbacks σ} {ignored : NameSet}

/-- An ignored vertex is popped. -/
theorem steps_refused (hcb : cb.Lawful ignored) {v : String} (hv : v ∈ ignored)
    (seen hot : NameSet) (rest : List String) (env : σ) :
    DfsSteps g cb ⟨seen, hot, v :: rest, env⟩ ⟨seen, hot, rest, cb.visit ignored env v⟩ := by
  rw [Callbacks.visit, if_pos hv]
  exact dfsSteps_one (by simp) (dfsStep_refused (hcb.refused v env hv))

/-- A vertex whose entries are all marked is popped and processed. -/
theorem steps_done (hcb : cb.Lawful ignored) {v : String} (hv : v ∉ ignored)
    {seen : NameSet} (hot : NameSet) (hhot : ∀ w ∈ g.edges v, w ∉ insert v hot)
    (hfresh : g.fresh seen v = []) (rest : List String) (env : σ) :
    DfsSteps g cb ⟨seen, hot, v :: rest, env⟩
      ⟨seen, (insert v hot).erase v, rest, cb.visit ignored env v⟩ := by
  have hallow := hcb.allowed v env hv
  have hstep : dfsStep g cb ⟨seen, hot, v :: rest, env⟩ = _ :=
    dfsStep_done (by rw [hallow]) hhot hfresh
  rw [hallow] at hstep
  rw [Callbacks.visit, if_neg hv]
  exact dfsSteps_one (by simp) hstep

/-- The unmarked entries of a vertex are put on top of it. -/
theorem steps_push (hcb : cb.Lawful ignored) {v : String} (hv : v ∉ ignored)
    {seen hot : NameSet} (hhot : ∀ w ∈ g.edges v, w ∉ insert v hot)
    (hfresh : g.fresh seen v ≠ []) (rest : List String) (env : σ) :
    DfsSteps g cb ⟨seen, hot, v :: rest, env⟩
      ⟨seen ∪ (g.fresh seen v).toFinset, insert v hot, g.fresh seen v ++ v :: rest, env⟩ := by
  have hallow := hcb.allowed v env hv
  have hstep : dfsStep g cb ⟨seen, hot, v :: rest, env⟩ = _ :=
    dfsStep_push (by rw [hallow]) hhot hfresh
  rw [hallow] at hstep
  exact dfsSteps_one (by simp) hstep

theorem not_mem_insert_of_backEntry {hot : List String} {v : String}
    (h : (g.guarded ignored).backEntry hot v = none) :
    ∀ w ∈ g.edges v, w ∉ insert v hot.toFinset := by
  intro w hw hmem
  exact Guarded.backEntry_eq_none.1 h w hw (by simpa using hmem)

/-- Going down from a vertex with unmarked entries: they are on top of the stack, and the
vertex is open. -/
theorem steps_down (hcb : cb.Lawful ignored) {hot : List String} {v : String} (hv : v ∉ ignored)
    {seen : NameSet} (hback : (g.guarded ignored).backEntry hot v = none)
    (hfresh : g.fresh seen v ≠ []) (rest : List String) (env : σ) :
    DfsSteps g cb ⟨seen, hot.toFinset, v :: rest, env⟩
      ⟨(g.guarded ignored).marked seen v, (v :: hot).toFinset,
        (g.guarded ignored).fresh seen v ++ v :: rest, env⟩ := by
  rw [List.toFinset_cons]
  exact steps_push hcb hv (not_mem_insert_of_backEntry hback) hfresh rest env

theorem not_open_of_fresh {hot : List String} {v : String} {seen : NameSet}
    (hback : (g.guarded ignored).backEntry hot v = none) :
    ∀ p ∈ (g.guarded ignored).fresh seen v, p ∉ v :: hot := fun p hp =>
  Guarded.backEntry_eq_none.1 hback p (Guarded.mem_fresh.1 hp).1

/-- A completed walk takes the pending names off the stack. -/
theorem steps_of_walk (hcb : cb.Lawful ignored) {hot seen ps seen' tr}
    (h : (g.guarded ignored).Walk hot seen ps seen' tr) :
    ∀ rest env, (∀ p ∈ ps, p ∉ hot) →
      DfsSteps g cb ⟨seen, hot.toFinset, ps ++ rest, env⟩
        ⟨seen', hot.toFinset, rest, tr.foldl (cb.visit ignored) env⟩ := by
  induction h with
  | nil => intro _ _ _; exact ReflTransGen.refl
  | @skip hot seen v vs seen' tr hok _ ih =>
    intro rest env hps
    have hstep := steps_refused (g := g) hcb (guarded_not_ok.1 hok) seen hot.toFinset (vs ++ rest) env
    exact hstep.trans (ih rest _ fun p hp => hps p (List.mem_cons_of_mem _ hp))
  | @node hot seen v vs seen₁ tr₁ seen₂ tr₂ hok hback h₁ _ ih₁ ih₂ =>
    intro rest env hps
    have hv : v ∉ ignored := guarded_ok.1 hok
    have hvhot : v ∉ hot.toFinset := by simpa using hps v (List.mem_cons_self ..)
    have hhot := not_mem_insert_of_backEntry hback
    have hlast := ih₂ rest (cb.visit ignored (tr₁.foldl (cb.visit ignored) env) v)
      fun p hp => hps p (List.mem_cons_of_mem _ hp)
    rw [List.foldl_append, List.foldl_cons]
    refine ReflTransGen.trans ?_ hlast
    by_cases hfresh : g.fresh seen v = []
    · rw [guarded_fresh, hfresh] at h₁
      cases h₁
      have hstep := steps_done hcb hv _ hhot hfresh (vs ++ rest) env
      have hmarked : (g.guarded ignored).marked seen v = seen := by
        rw [Guarded.marked, guarded_fresh, hfresh]
        simp
      rw [Finset.erase_insert hvhot] at hstep
      rw [hmarked]
      exact hstep
    · have hdown := ih₁ (v :: (vs ++ rest)) env (not_open_of_fresh hback)
      rw [List.toFinset_cons] at hdown
      -- the second look at `v` finds all its entries marked
      have hnone : g.fresh seen₁ v = [] := by
        rw [← guarded_fresh g ignored, List.eq_nil_iff_forall_not_mem]
        intro w hw
        obtain ⟨hw₁, hw₂⟩ := Guarded.mem_fresh.1 hw
        exact hw₂ (h₁.subset (Guarded.mem_marked.2 (Or.inr hw₁)))
      have hstep := steps_done hcb hv (insert v hot.toFinset) (by simpa using hhot) hnone
        (vs ++ rest) (tr₁.foldl (cb.visit ignored) env)
      rw [Finset.insert_idem, Finset.erase_insert hvhot] at hstep
      have hpush := steps_down hcb hv hback hfresh (vs ++ rest) env
      rw [List.toFinset_cons] at hpush
      exact (hpush.trans hdown).trans hstep

/-- A walk below one vertex, as a walk of that vertex alone. -/
theorem steps_of_node (hcb : cb.Lawful ignored) {hot seen v vs seen₁ tr₁}
    (hok : (g.guarded ignored).ok v = true) (hback : (g.guarded ignored).backEntry hot v = none)
    (h₁ : (g.guarded ignored).Walk (v :: hot) ((g.guarded ignored).marked seen v)
      ((g.guarded ignored).fresh seen v) seen₁ tr₁)
    (rest : List String) (env : σ) (hps : ∀ p ∈ v :: vs, p ∉ hot) :
    DfsSteps g cb ⟨seen, hot.toFinset, v :: vs ++ rest, env⟩
      ⟨seen₁, hot.toFinset, vs ++ rest, (tr₁ ++ [v]).foldl (cb.visit ignored) env⟩ := by
  have hnode := Guarded.Walk.node hok hback h₁ (Guarded.Walk.nil _ _)
  exact steps_of_walk hcb hnode (vs ++ rest) env fun p hp =>
    hps p (List.mem_singleton.1 hp ▸ List.mem_cons_self ..)

/-- A loop ends the run in the error that names it. -/
theorem error_of_loops (hcb : cb.Lawful ignored) {hot seen ps w}
    (h : (g.guarded ignored).Loops hot seen ps w) :
    ∀ rest env, (∀ p ∈ ps, p ∉ hot) →
      ∃ s, DfsSteps g cb ⟨seen, hot.toFinset, ps ++ rest, env⟩ s ∧ s.stack ≠ [] ∧
        dfsStep g cb s = .error (.partOfLoop w) := by
  induction h with
  | @here hot seen v vs w hok hback =>
    intro rest env _
    refine ⟨_, ReflTransGen.refl, by simp, ?_⟩
    refine dfsStep_loop (by rw [hcb.allowed v env (guarded_ok.1 hok)]) ?_
    rw [← hback, Guarded.backEntry]
    congr 1
    funext x
    simp
  | @down hot seen v vs w hok hback h ih =>
    intro rest env _
    have hfresh : g.fresh seen v ≠ [] := by
      intro hnil
      rw [guarded_fresh, hnil] at h
      cases h
    have hpush := steps_down hcb (guarded_ok.1 hok) hback hfresh (vs ++ rest) env
    obtain ⟨s, hs, hne, herr⟩ := ih (v :: (vs ++ rest)) env (not_open_of_fresh hback)
    exact ⟨s, hpush.trans hs, hne, herr⟩
  | @skip hot seen v vs w hok _ ih =>
    intro rest env hps
    have hstep := steps_refused (g := g) hcb (guarded_not_ok.1 hok) seen hot.toFinset (vs ++ rest) env
    obtain ⟨s, hs, hne, herr⟩ := ih rest _ fun p hp => hps p (List.mem_cons_of_mem _ hp)
    exact ⟨s, hstep.trans hs, hne, herr⟩
  | @next hot seen v vs w seen₁ tr₁ hok hback h₁ _ ih =>
    intro rest env hps
    have hfirst := steps_of_node hcb hok hback h₁ rest env hps
    obtain ⟨s, hs, hne, herr⟩ := ih rest _ fun p hp => hps p (List.mem_cons_of_mem _ hp)
    exact ⟨s, hfirst.trans hs, hne, herr⟩

/-! ## `postorderDFS` -/

theorem postorderDFS_not_part {seen : Option NameSet} {origin : String} {env : σ}
    (h : origin ∉ g.vertices) :
    postorderDFS g seen origin cb env = .error (.notPartOfGraph origin) :=
  if_neg h

theorem postorderDFS_seen {seen : NameSet} {origin : String} {env : σ}
    (h : origin ∈ g.vertices) (hseen : origin ∈ seen) :
    postorderDFS g (some seen) origin cb env = .ok (seen, env) := by
  simp [postorderDFS, h, hseen]

theorem postorderDFS_of_walk (hcb : cb.Lawful ignored) {seen : Option NameSet} {origin : String}
    {env : σ} (h : origin ∈ g.vertices) (hseen : origin ∉ seen.getD ∅) {seen' tr}
    (hw : (g.guarded ignored).Walk [] (insert origin (seen.getD ∅)) [origin] seen' tr) :
    postorderDFS g seen origin cb env = .ok (seen', tr.foldl (cb.visit ignored) env) := by
  have hsteps := steps_of_walk hcb hw [] env (by simp)
  rw [List.append_nil, List.toFinset_nil] at hsteps
  simp only [postorderDFS, if_pos h, if_neg hseen, dfsLoop_of_steps hsteps, dfsLoop_nil]

theorem postorderDFS_of_loops (hcb : cb.Lawful ignored) {seen : Option NameSet} {origin : String}
    {env : σ} (h : origin ∈ g.vertices) (hseen : origin ∉ seen.getD ∅) {w}
    (hl : (g.guarded ignored).Loops [] (insert origin (seen.getD ∅)) [origin] w) :
    postorderDFS g seen origin cb env = .error (.partOfLoop w) := by
  obtain ⟨s, hsteps, hne, herr⟩ := error_of_loops hcb hl [] env (by simp)
  rw [List.append_nil, List.toFinset_nil] at hsteps
  simp only [postorderDFS, if_pos h, if_neg hseen, dfsLoop_of_steps hsteps, dfsLoop_error hne herr]

end Simulation

end GardenFeat
