import GardenLinux.Lib.Stream
import GardenLinux.Lib.Text

/-!
# The logs of a pipeline run

`get_and_zip_logs` asks for the log of every step of a pipeline run, and puts what it gets into an
archive.  A request may raise: then a note is written, but to a file of the working directory, and
the function goes on to the archive with the response of an earlier request.

What is proved here:

* `serve_ok_iff` — when the loop returns, and the archive it leaves;
* `logsKept_iff` — when the archive has each step's own log;
* `zipComp_inj` — the entries of different tasks have different names.
-/

namespace Glci

open Stream

/-! ## The steps of a pipeline run -/

/-- A step; `exitCode` is there when the step is terminated. -/
structure LogStep where
  name : List Char
  container : List Char
  exitCode : Option ℤ

/-- A task run, with the reason of its first condition. -/
structure TaskRun where
  pipelineTaskName : List Char
  podName : List Char
  reason : List Char
  steps : List LogStep

structure TaskRunInfo where
  name : List Char
  podName : List Char
  steps : List (List Char × List Char)

/-- An item of a dictionary: a name keeps its place, and gets the new value. -/
def setStep (steps : List (List Char × List Char)) (step : LogStep) :
    List (List Char × List Char) :=
  if steps.any (·.1 = step.name) then
    steps.map fun s => if s.1 = step.name then (s.1, step.container) else s
  else steps ++ [(step.name, step.container)]

/-- `{step['name']: step['container'] for step in …}`. -/
def stepDict (steps : List LogStep) : List (List Char × List Char) := steps.foldl setStep []

/-- `_get_task_run_infos`. -/
def getTaskRunInfos (taskRuns : List TaskRun) (onlyFailed : Bool) : List TaskRunInfo :=
  taskRuns.filterMap fun tr =>
    if onlyFailed then
      if tr.reason ≠ "Succeeded".toList then
        some ⟨tr.pipelineTaskName, tr.podName,
          stepDict (tr.steps.filter fun step => step.exitCode.isSome ∧ step.exitCode ≠ some 0)⟩
      else none
    else some ⟨tr.pipelineTaskName, tr.podName, stepDict tr.steps⟩

/-! ## Requests and their outcomes -/

/-- The arguments of `read_namespaced_pod_log_with_http_info`. -/
structure LogRequest where
  name : List Char
  container : List Char
  namespace_ : List Char
  tailLines : Option ℕ

/-- A response with a status and a body, or an `ApiException` with a status. -/
inductive LogOutcome
  | response (statusCode : ℕ) (data : Bytes)
  | apiException (status : ℕ)

/-- A byte, and the number of the request that it answers. -/
abbrev Sent := ℕ × UInt8

/-- What `stream` yields of what is left of a body. -/
structure Streaming where
  chunks : List Sent → List (List Sent)
  flatten_chunks : ∀ body, (chunks body).flatten = body

/-- `f'{run_info.name}/{idx:02}_{step}.log'`. -/
def zipComp (task : List Char) (idx : ℕ) (step : List Char) : List Char :=
  task ++ '/' :: (Text.zeroPad 2 idx ++ '_' :: (step ++ ".log".toList))

/-- The requests of a task run, each with the name of its entry. -/
def TaskRunInfo.requests (info : TaskRunInfo) (namespace_ : List Char) (tailLines : Option ℕ) :
    List (List Char × LogRequest) :=
  info.steps.zipIdx.map fun ((step, container), idx) =>
    (zipComp info.name idx step,
      { name := info.podName
        container := container
        namespace_ := namespace_
        tailLines := if tailLines = some 0 then none else tailLines })

/-- A request that is made: its number, the name of the entry, and what comes of it. -/
structure LogCall where
  number : ℕ
  zipComp : List Char
  outcome : LogOutcome

/-- The calls of the loops. -/
def logCalls (k8s : ℕ → LogRequest → LogOutcome) (requests : List (List Char × LogRequest)) :
    List LogCall :=
  requests.zipIdx.map fun ((name, request), n) => ⟨n, name, k8s n request⟩

/-! ## The loop -/

structure ZipEntry where
  name : List Char
  content : List Sent

/-- What goes wrong beside `ApiException`. -/
inductive LogError
  | fileNotFound
  | unboundLocal
  | fileSizeTooLarge

/-- `zipfile.ZIP64_LIMIT`: an entry that is opened without `force_zip64` may not be larger. -/
def zip64Limit : ℕ := 2 ^ 31 - 1

/-- The entries so far, and what `log_response` has left to stream, if it is set. -/
structure LogState where
  entries : List ZipEntry
  logResponse : Option (List Sent)

/-- The working directory and the library. -/
structure LogSetup where
  canOpen : List Char → Bool
  streaming : Streaming

/-- `with log_zip.open(zip_comp, mode='w')`: the rest of the response is written. -/
def LogState.zip (setup : LogSetup) (st : LogState) (name : List Char) : Except LogError LogState :=
  match st.logResponse with
  | none => .error .unboundLocal
  | some data =>
    let content := (setup.streaming.chunks data).flatten
    if zip64Limit < content.length then .error .fileSizeTooLarge
    else .ok ⟨st.entries ++ [⟨name, content⟩], some []⟩

/-- The body of the loops. -/
def LogState.serve (setup : LogSetup) (st : LogState) (call : LogCall) : Except LogError LogState :=
  match call.outcome with
  | .response statusCode data =>
    let st := { st with logResponse := some (data.map (call.number, ·)) }
    if 400 ≤ statusCode then .ok st else st.zip setup call.zipComp
  | .apiException _ =>
    if setup.canOpen call.zipComp then st.zip setup call.zipComp else .error .fileNotFound

def serveAll (setup : LogSetup) (calls : List LogCall) (st : LogState) : Except LogError LogState :=
  calls.foldlM (LogState.serve setup) st

/-- The calls of a pipeline run. -/
def runCalls (k8s : ℕ → LogRequest → LogOutcome) (taskRuns : List TaskRun) (namespace_ : List Char)
    (tailLines : Option ℕ) (onlyFailed : Bool) : List LogCall :=
  logCalls k8s
    ((getTaskRunInfos taskRuns onlyFailed).flatMap fun info => info.requests namespace_ tailLines)

/-- The entries of the archive that `get_and_zip_logs` leaves. -/
def getAndZipLogs (setup : LogSetup) (k8s : ℕ → LogRequest → LogOutcome) (taskRuns : List TaskRun)
    (namespace_ : List Char) (tailLines : Option ℕ) (onlyFailed : Bool) :
    Except LogError (List ZipEntry) := do
  let st ← serveAll setup (runCalls k8s taskRuns namespace_ tailLines onlyFailed) ⟨[], none⟩
  .ok st.entries

/-! ## The right archive -/

def LogOutcome.data : LogOutcome → Bytes
  | .response _ data => data
  | .apiException _ => []

/-- The request got a log. -/
def LogOutcome.succeeded : LogOutcome → Bool
  | .response statusCode _ => statusCode < 400
  | .apiException _ => false

/-- The request got a response that is an error. -/
def LogOutcome.refused : LogOutcome → Bool
  | .response statusCode _ => 400 ≤ statusCode
  | .apiException _ => false

def LogOutcome.raised : LogOutcome → Bool
  | .response _ _ => false
  | .apiException _ => true

/-- The body of a response as it comes. -/
def LogCall.sent (c : LogCall) : List Sent := c.outcome.data.map (c.number, ·)

/-- The function returns.  A step that got its log has one entry, which is this log; the entry of
a step that did not has nothing of a log. -/
structure LogsKept (calls : List LogCall) (result : Except LogError (List ZipEntry)) : Prop where
  returned : ∃ entries, result = .ok entries
  own : ∀ entries, result = .ok entries → ∀ c ∈ calls, c.outcome.succeeded = true →
    entries.filter (fun e => e.name = c.zipComp) = [⟨c.zipComp, c.sent⟩]
  noOther : ∀ entries, result = .ok entries → ∀ c ∈ calls, c.outcome.succeeded = false →
    ∀ e ∈ entries, e.name = c.zipComp → ∀ x ∈ e.content, ∀ d ∈ calls, d.number = x.1 →
      d.outcome.succeeded = false

/-- No other call has the name of one that got a log, unless it was refused and the log is empty. -/
def EntriesApart (calls : List LogCall) : Prop :=
  ∀ c ∈ calls, c.outcome.succeeded = true → ∀ d ∈ calls, d.number ≠ c.number →
    d.zipComp = c.zipComp → d.outcome.refused = true ∧ c.outcome.data = []

/-- When the archive is right. -/
structure Retrievable (setup : LogSetup) (calls : List LogCall) : Prop where
  first : ∀ c ∈ calls.head?, c.outcome.raised = false
  opened : ∀ c ∈ calls, c.outcome.raised = true → setup.canOpen c.zipComp = true
  small : ∀ c ∈ calls, c.outcome.succeeded = true → c.outcome.data.length ≤ zip64Limit
  smallError : ∀ c d, [c, d] <:+: calls → c.outcome.refused = true → d.outcome.raised = true →
    c.outcome.data.length ≤ zip64Limit
  apart : EntriesApart calls

/-! ## What the loop leaves -/

theorem not_refused_of_raised {o : LogOutcome} (h : o.raised = true) : o.refused = false := by
  cases o with
  | response statusCode data => cases h
  | apiException status => rfl

theorem succeeded_iff {o : LogOutcome} :
    o.succeeded = true ↔ o.refused = false ∧ o.raised = false := by
  cases o with
  | response statusCode data => simp [LogOutcome.succeeded, LogOutcome.refused, LogOutcome.raised]
  | apiException status => simp [LogOutcome.succeeded, LogOutcome.raised]

/-- What the response of a call has left after its turn. -/
def LogCall.left (c : LogCall) : List Sent := if c.outcome.refused then c.sent else []

/-- What is written in the turn of a call, after the turn of another one. -/
def LogCall.content (prev : Option LogCall) (c : LogCall) : List Sent :=
  if c.outcome.raised then (prev.map LogCall.left).getD [] else c.sent

/-- The entry of a call, if it has one. -/
def LogCall.entry (prev : Option LogCall) (c : LogCall) : List ZipEntry :=
  if c.outcome.refused then [] else [⟨c.zipComp, c.content prev⟩]

/-- The turn of a call returns. -/
structure LogCall.Fits (setup : LogSetup) (prev : Option LogCall) (c : LogCall) : Prop where
  opened : c.outcome.raised = true → setup.canOpen c.zipComp = true
  bound : c.outcome.raised = true → prev ≠ none
  small : c.outcome.refused = false → (c.content prev).length ≤ zip64Limit

/-- The entries of all calls. -/
def entriesFrom : Option LogCall → List LogCall → List ZipEntry
  | _, [] => []
  | prev, c :: cs => c.entry prev ++ entriesFrom (some c) cs

/-- All turns return. -/
def AllFit (setup : LogSetup) : Option LogCall → List LogCall → Prop
  | _, [] => True
  | prev, c :: cs => c.Fits setup prev ∧ AllFit setup (some c) cs

theorem zip_ok_iff {setup : LogSetup} {st st' : LogState} {name : List Char} :
    st.zip setup name = .ok st' ↔ ∃ data, st.logResponse = some data ∧
      data.length ≤ zip64Limit ∧ st' = ⟨st.entries ++ [⟨name, data⟩], some []⟩ := by
  unfold LogState.zip
  constructor
  · intro h
    split at h
    · cases h
    · next data hdata =>
      rw [setup.streaming.flatten_chunks] at h
      dsimp only at h
      split at h
      · cases h
      · next hsmall =>
        cases h
        exact ⟨data, hdata, not_lt.1 hsmall, rfl⟩
  · rintro ⟨data, hdata, hsmall, rfl⟩
    rw [hdata]
    dsimp only
    rw [setup.streaming.flatten_chunks, if_neg (not_lt.2 hsmall)]

/-- Without an exception, only the size of the content counts. -/
theorem fits_iff_of_not_raised {setup : LogSetup} {prev : Option LogCall} {c : LogCall}
    (hraised : c.outcome.raised = false) :
    c.Fits setup prev ↔ (c.outcome.refused = false → (c.content prev).length ≤ zip64Limit) := by
  have hno : ¬ c.outcome.raised = true := by
    rw [hraised]
    exact Bool.false_ne_true
  exact ⟨fun hfits => hfits.small,
    fun hsmall => ⟨fun hr => absurd hr hno, fun hr => absurd hr hno, hsmall⟩⟩

/-- The turn of a call with a response. -/
theorem serve_response_ok_iff {setup : LogSetup} {st st' : LogState} {prev : Option LogCall}
    {c : LogCall} {statusCode : ℕ} {data : Bytes}
    (ho : c.outcome = .response statusCode data) :
    st.serve setup c = .ok st' ↔
      c.Fits setup prev ∧ st' = ⟨st.entries ++ c.entry prev, some c.left⟩ := by
  have hsent : c.sent = data.map (c.number, ·) := by
    rw [LogCall.sent, ho]
    rfl
  have hraised : c.outcome.raised = false := by rw [ho]; rfl
  have hcontent : c.content prev = c.sent := by
    rw [LogCall.content, hraised]
    rfl
  rw [fits_iff_of_not_raised hraised, hcontent]
  unfold LogState.serve
  rw [ho]
  dsimp only
  rw [← hsent, ← ho]
  split
  · next hcode =>
    have hrefused : c.outcome.refused = true := by
      rw [ho]
      exact decide_eq_true hcode
    rw [LogCall.entry, LogCall.left, if_pos hrefused, if_pos hrefused, List.append_nil]
    simp [hrefused, eq_comm]
  · next hcode =>
    have hrefused : c.outcome.refused = false := by
      rw [ho]
      exact decide_eq_false hcode
    rw [LogCall.entry, LogCall.left, hrefused, zip_ok_iff, hcontent]
    constructor
    · rintro ⟨rest, hrest, hsmall, rfl⟩
      cases hrest
      exact ⟨fun _ => hsmall, rfl⟩
    · rintro ⟨hsmall, rfl⟩
      exact ⟨c.sent, rfl, hsmall rfl, rfl⟩

/-- The turn of a call that raises takes what the call before it has left. -/
theorem serve_exception_ok_iff {setup : LogSetup} {st st' : LogState} {prev : Option LogCall}
    {c : LogCall} {status : ℕ} (ho : c.outcome = .apiException status)
    (hprev : st.logResponse = prev.map LogCall.left) :
    st.serve setup c = .ok st' ↔
      c.Fits setup prev ∧ st' = ⟨st.entries ++ c.entry prev, some c.left⟩ := by
  have hraised : c.outcome.raised = true := by rw [ho]; rfl
  have hrefused : c.outcome.refused = false := by rw [ho]; rfl
  have hcontent : c.content prev = (prev.map LogCall.left).getD [] := by
    rw [LogCall.content, hraised]
    rfl
  unfold LogState.serve
  rw [ho]
  dsimp only
  rw [LogCall.entry, LogCall.left, hrefused, hcontent, ← hprev]
  constructor
  · intro h
    split at h
    · next hopen =>
      obtain ⟨data, hdata, hsmall, rfl⟩ := zip_ok_iff.1 h
      refine ⟨⟨fun _ => hopen, ?_, ?_⟩, ?_⟩
      · rintro _ rfl
        rw [hdata] at hprev
        cases hprev
      · intro _
        rw [hcontent, ← hprev, hdata]
        exact hsmall
      · rw [hdata]
        rfl
    · cases h
  · rintro ⟨hfits, rfl⟩
    rw [if_pos (hfits.opened hraised), zip_ok_iff]
    cases hp : prev with
    | none => exact absurd hp (hfits.bound hraised)
    | some d =>
      have hsmall := hfits.small hrefused
      rw [hcontent, hp] at hsmall
      rw [hprev, hp]
      exact ⟨d.left, rfl, hsmall, rfl⟩

/-- **Turn.** -/
theorem serve_ok_iff {setup : LogSetup} {st st' : LogState} {prev : Option LogCall} {c : LogCall}
    (hprev : st.logResponse = prev.map LogCall.left) :
    st.serve setup c = .ok st' ↔
      c.Fits setup prev ∧ st' = ⟨st.entries ++ c.entry prev, some c.left⟩ := by
  cases ho : c.outcome with
  | response statusCode data => exact serve_response_ok_iff ho
  | apiException status => exact serve_exception_ok_iff ho hprev

/-- **Loop.** It returns if all turns do, and leaves the entries of all calls. -/
theorem serveAll_ok_iff {setup : LogSetup} {calls : List LogCall} {st : LogState}
    {prev : Option LogCall} (hprev : st.logResponse = prev.map LogCall.left)
    {entries : List ZipEntry} :
    (∃ st', serveAll setup calls st = .ok st' ∧ st'.entries = entries) ↔
      AllFit setup prev calls ∧ entries = st.entries ++ entriesFrom prev calls := by
  induction calls generalizing st prev with
  | nil =>
    rw [entriesFrom, List.append_nil]
    constructor
    · rintro ⟨st', h, rfl⟩
      cases h
      exact ⟨trivial, rfl⟩
    · rintro ⟨-, rfl⟩
      exact ⟨st, rfl, rfl⟩
  | cons c cs ih =>
    have hstep : ∀ st', serveAll setup (c :: cs) st = .ok st' ↔
        ∃ st₁, st.serve setup c = .ok st₁ ∧ serveAll setup cs st₁ = .ok st' := by
      intro st'
      show (st.serve setup c >>= fun st₁ => serveAll setup cs st₁) = .ok st' ↔ _
      cases st.serve setup c with
      | error e =>
        constructor
        · intro h
          cases h
        · rintro ⟨st₁, h, -⟩
          cases h
      | ok st₁ =>
        constructor
        · intro h
          exact ⟨st₁, rfl, h⟩
        · rintro ⟨_, heq, h⟩
          cases heq
          exact h
    have hserve : ∀ st₁, st.serve setup c = .ok st₁ ↔
        c.Fits setup prev ∧ st₁ = ⟨st.entries ++ c.entry prev, some c.left⟩ :=
      fun st₁ => serve_ok_iff hprev
    constructor
    · rintro ⟨st', h, hentries⟩
      obtain ⟨st₁, h₁, hrest⟩ := (hstep st').1 h
      obtain ⟨hfits, rfl⟩ := (hserve st₁).1 h₁
      have hnext : (⟨st.entries ++ c.entry prev, some c.left⟩ : LogState).logResponse =
          (some c).map LogCall.left := rfl
      obtain ⟨hall, heq⟩ := (ih hnext).1 ⟨st', hrest, hentries⟩
      refine ⟨⟨hfits, hall⟩, ?_⟩
      rw [heq, entriesFrom, List.append_assoc]
    · rintro ⟨⟨hfits, hall⟩, heq⟩
      have h₁ := (hserve _).2 ⟨hfits, rfl⟩
      rw [entriesFrom, ← List.append_assoc] at heq
      have hnext : (⟨st.entries ++ c.entry prev, some c.left⟩ : LogState).logResponse =
          (some c).map LogCall.left := rfl
      obtain ⟨st', hrest, hentries⟩ := (ih hnext).2 ⟨hall, heq⟩
      exact ⟨st', (hstep st').2 ⟨_, h₁, hrest⟩, hentries⟩

/-! ## When it returns -/

theorem length_sent (c : LogCall) : c.sent.length = c.outcome.data.length := List.length_map _

theorem length_content_of_raised {c : LogCall} {prev : Option LogCall}
    (h : c.outcome.raised = true) :
    (c.content prev).length ≤ zip64Limit ↔
      ∀ d, prev = some d → d.outcome.refused = true → d.outcome.data.length ≤ zip64Limit := by
  rw [LogCall.content, h, if_pos rfl]
  cases prev with
  | none => simp
  | some d =>
    show d.left.length ≤ zip64Limit ↔ _
    constructor
    · intro hle d' hd' hrefused
      cases hd'
      rwa [LogCall.left, hrefused, if_pos rfl, length_sent] at hle
    · intro hall
      rw [LogCall.left]
      split
      · next hrefused =>
        rw [length_sent]
        exact hall d rfl hrefused
      · exact Nat.zero_le _

theorem pair_infix_cons {α : Type*} {x y a : α} {l : List α} :
    [x, y] <:+: a :: l ↔ (x = a ∧ l.head? = some y) ∨ [x, y] <:+: l := by
  rw [List.infix_cons_iff, List.cons_prefix_cons]
  cases l with
  | nil => simp
  | cons b l => simp [List.cons_prefix_cons, eq_comm]

/-- What the calls must meet, one by one. -/
theorem allFit_iff {setup : LogSetup} {calls : List LogCall} {prev : Option LogCall} :
    AllFit setup prev calls ↔
      (prev = none → ∀ c ∈ calls.head?, c.outcome.raised = false) ∧
      (∀ c ∈ calls, c.outcome.raised = true → setup.canOpen c.zipComp = true) ∧
      (∀ c ∈ calls, c.outcome.succeeded = true → c.outcome.data.length ≤ zip64Limit) ∧
      (∀ c d, [c, d] <:+: prev.toList ++ calls → c.outcome.refused = true →
        d.outcome.raised = true → c.outcome.data.length ≤ zip64Limit) := by
  induction calls generalizing prev with
  | nil =>
    constructor
    · intro _
      refine ⟨by simp, by simp, by simp, ?_⟩
      intro c d h
      exfalso
      have hlen := h.length_le
      cases prev with
      | none => simp at hlen
      | some p => simp at hlen
    · intro _
      trivial
  | cons c cs ih =>
    have hpairs : ∀ x y, [x, y] <:+: prev.toList ++ c :: cs ↔
        (prev = some x ∧ c = y) ∨ [x, y] <:+: c :: cs := by
      intro x y
      cases prev with
      | none => simp
      | some p =>
        show [x, y] <:+: p :: c :: cs ↔ _
        rw [pair_infix_cons]
        simp [eq_comm]
    have hsent : c.outcome.succeeded = true → c.content prev = c.sent := by
      intro hs
      rw [LogCall.content, (succeeded_iff.1 hs).2]
      rfl
    rw [AllFit, ih]
    constructor
    · rintro ⟨hfits, -, hopened, hsmall, hrest⟩
      refine ⟨?_, ?_, ?_, ?_⟩
      · intro hp x hx
        rw [List.head?_cons, Option.mem_some_iff] at hx
        subst hx
        by_contra hr
        exact hfits.bound (Bool.not_eq_false _ ▸ hr) hp
      · rw [List.forall_mem_cons]
        exact ⟨hfits.opened, hopened⟩
      · rw [List.forall_mem_cons]
        refine ⟨?_, hsmall⟩
        intro hs
        have hle := hfits.small (succeeded_iff.1 hs).1
        rwa [hsent hs, length_sent] at hle
      · intro x y hxy hrefused hraised
        rcases (hpairs x y).1 hxy with ⟨hp, rfl⟩ | htail
        · exact (length_content_of_raised hraised).1 (hfits.small (not_refused_of_raised hraised)) x hp
            hrefused
        · exact hrest x y htail hrefused hraised
    · rintro ⟨hfirst, hopened, hsmall, hrest⟩
      rw [List.forall_mem_cons] at hopened hsmall
      refine ⟨⟨hopened.1, ?_, ?_⟩, ?_, hopened.2, hsmall.2, ?_⟩
      · intro hr hp
        have hno := hfirst hp c rfl
        rw [hr] at hno
        cases hno
      · intro hrefused
        cases hr : c.outcome.raised with
        | true =>
          rw [length_content_of_raised hr]
          intro d hd hdrefused
          exact hrest d c ((hpairs d c).2 (Or.inl ⟨hd, rfl⟩)) hdrefused hr
        | false =>
          have hs := succeeded_iff.2 ⟨hrefused, hr⟩
          rw [hsent hs, length_sent]
          exact hsmall.1 hs
      · intro h
        cases h
      · intro x y hxy
        exact hrest x y ((hpairs x y).2 (Or.inr hxy))

/-! ## What is in the archive -/

/-- An entry comes from a call that was not refused.  If the call raised, it has what an error left
over. -/
theorem exists_call_of_entry {calls : List LogCall} {prev : Option LogCall} {e : ZipEntry}
    (h : e ∈ entriesFrom prev calls) :
    ∃ c ∈ calls, c.outcome.refused = false ∧ e.name = c.zipComp ∧
      (c.outcome.succeeded = true → e.content = c.sent) ∧
      (c.outcome.raised = true → ∀ x ∈ e.content, ∃ d, (d ∈ calls ∨ prev = some d) ∧
        d.outcome.refused = true ∧ d.number = x.1) := by
  induction calls generalizing prev with
  | nil => cases h
  | cons c cs ih =>
    rcases List.mem_append.1 h with hc | hcs
    · rw [LogCall.entry] at hc
      split at hc
      · cases hc
      · next hrefused =>
        rw [List.mem_singleton.1 hc]
        refine ⟨c, List.mem_cons_self, Bool.not_eq_true _ ▸ hrefused, rfl, ?_, ?_⟩
        · intro hs
          show c.content prev = c.sent
          rw [LogCall.content, (succeeded_iff.1 hs).2]
          rfl
        · intro hr x hx
          have hx' : x ∈ c.content prev := hx
          rw [LogCall.content, hr, if_pos rfl] at hx'
          cases prev with
          | none => cases hx'
          | some d =>
            have hleft : x ∈ d.left := hx'
            rw [LogCall.left] at hleft
            split at hleft
            · next hd =>
              obtain ⟨b, -, rfl⟩ := List.mem_map.1 hleft
              exact ⟨d, Or.inr rfl, hd, rfl⟩
            · cases hleft
    · obtain ⟨k, hk, hrefused, hname, hown, hrest⟩ := ih hcs
      refine ⟨k, List.mem_cons_of_mem _ hk, hrefused, hname, hown, ?_⟩
      intro hr x hx
      obtain ⟨d, hd, hdrefused, hnumber⟩ := hrest hr x hx
      refine ⟨d, ?_, hdrefused, hnumber⟩
      left
      rcases hd with hmem | heq
      · exact List.mem_cons_of_mem _ hmem
      · cases heq
        exact List.mem_cons_self

/-- A log that was got is an entry. -/
theorem entry_mem {calls : List LogCall} {prev : Option LogCall} {c : LogCall} (hc : c ∈ calls)
    (hs : c.outcome.succeeded = true) : ⟨c.zipComp, c.sent⟩ ∈ entriesFrom prev calls := by
  induction calls generalizing prev with
  | nil => cases hc
  | cons d ds ih =>
    rw [entriesFrom, List.mem_append]
    rcases List.mem_cons.1 hc with rfl | hds
    · left
      obtain ⟨hrefused, hraised⟩ := succeeded_iff.1 hs
      rw [LogCall.entry, hrefused, LogCall.content, hraised]
      exact List.mem_cons_self
    · exact Or.inr (ih hds)

/-- Each call that was not refused has one entry of its name. -/
theorem length_entries (calls : List LogCall) (prev : Option LogCall) (name : List Char) :
    ((entriesFrom prev calls).filter fun e => e.name = name).length =
      (calls.filter fun c => c.outcome.refused = false ∧ c.zipComp = name).length := by
  induction calls generalizing prev with
  | nil => rfl
  | cons c cs ih =>
    rw [entriesFrom, List.filter_append, List.length_append, ih, List.filter_cons, LogCall.entry]
    cases hr : c.outcome.refused with
    | true => simp
    | false =>
      by_cases hname : c.zipComp = name
      · simp [hname, Nat.add_comm]
      · simp [hname]

/-- A list in which nothing is twice, of one element. -/
theorem eq_singleton_of_nodup {l : List LogCall} (hl : l.Nodup) {c : LogCall} (hc : c ∈ l)
    (hall : ∀ d ∈ l, d = c) : l = [c] := by
  match l, hl, hc, hall with
  | [d], _, _, hall => rw [hall d List.mem_cons_self]
  | d :: d' :: ds, hl, _, hall =>
    have hd := hall d List.mem_cons_self
    have hd' := hall d' (List.mem_cons_of_mem _ List.mem_cons_self)
    rw [hd, hd'] at hl
    simp at hl

section Archive

variable {calls : List LogCall} (hnodup : (calls.map LogCall.number).Nodup)
include hnodup

theorem call_eq {c d : LogCall} (hc : c ∈ calls) (hd : d ∈ calls) (h : c.number = d.number) :
    c = d :=
  List.inj_on_of_nodup_map hnodup hc hd h

/-- The one entry of a log. -/
theorem filter_entries (hapart : EntriesApart calls) {c : LogCall} (hc : c ∈ calls)
    (hs : c.outcome.succeeded = true) :
    (entriesFrom none calls).filter (fun e => e.name = c.zipComp) = [⟨c.zipComp, c.sent⟩] := by
  have hone : (calls.filter fun d => d.outcome.refused = false ∧ d.zipComp = c.zipComp) = [c] := by
    refine eq_singleton_of_nodup (List.Nodup.filter _ (List.Nodup.of_map _ hnodup)) ?_ ?_
    · exact List.mem_filter.2 ⟨hc, decide_eq_true ⟨(succeeded_iff.1 hs).1, rfl⟩⟩
    · intro d hd
      obtain ⟨hmem, hkeep⟩ := List.mem_filter.1 hd
      obtain ⟨hrefused, hname⟩ := of_decide_eq_true hkeep
      by_contra hne
      have hnumber : d.number ≠ c.number := fun h => hne (call_eq hnodup hmem hc h)
      rw [(hapart c hc hs d hmem hnumber hname).1] at hrefused
      cases hrefused
  have hlength := length_entries calls none c.zipComp
  rw [hone] at hlength
  obtain ⟨e, he⟩ := List.length_eq_one_iff.1 hlength
  have hmem : (⟨c.zipComp, c.sent⟩ : ZipEntry) ∈
      (entriesFrom none calls).filter fun e => e.name = c.zipComp :=
    List.mem_filter.2 ⟨entry_mem hc hs, decide_eq_true rfl⟩
  rw [he] at hmem ⊢
  rw [List.mem_singleton.1 hmem]

/-- **Entries.** -/
theorem entries_kept_iff :
    ((∀ c ∈ calls, c.outcome.succeeded = true →
        (entriesFrom none calls).filter (fun e => e.name = c.zipComp) = [⟨c.zipComp, c.sent⟩]) ∧
      (∀ c ∈ calls, c.outcome.succeeded = false → ∀ e ∈ entriesFrom none calls,
        e.name = c.zipComp → ∀ x ∈ e.content, ∀ d ∈ calls, d.number = x.1 →
          d.outcome.succeeded = false)) ↔ EntriesApart calls := by
  constructor
  · rintro ⟨hown, hother⟩ c hc hs d hd hnumber hname
    have hrefused : d.outcome.refused = true := by
      by_contra hr
      have hlength := length_entries calls none c.zipComp
      rw [hown c hc hs] at hlength
      obtain ⟨k, hk⟩ := List.length_eq_one_iff.1 hlength.symm
      have hcmem : c ∈ calls.filter fun d => d.outcome.refused = false ∧ d.zipComp = c.zipComp :=
        List.mem_filter.2 ⟨hc, decide_eq_true ⟨(succeeded_iff.1 hs).1, rfl⟩⟩
      have hdmem : d ∈ calls.filter fun d => d.outcome.refused = false ∧ d.zipComp = c.zipComp :=
        List.mem_filter.2 ⟨hd, decide_eq_true ⟨Bool.not_eq_true _ ▸ hr, hname⟩⟩
      rw [hk, List.mem_singleton] at hcmem hdmem
      exact hnumber (by rw [hcmem, hdmem])
    refine ⟨hrefused, ?_⟩
    have hfailed : d.outcome.succeeded = false := by
      by_contra hon
      rw [(succeeded_iff.1 (Bool.not_eq_false _ ▸ hon)).1] at hrefused
      cases hrefused
    by_contra hne
    obtain ⟨b, bs, hdata⟩ := List.exists_cons_of_ne_nil hne
    have hfirst : (c.number, b) ∈ c.sent := by
      rw [LogCall.sent, hdata]
      exact List.mem_cons_self
    have hno := hother d hd hfailed _ (entry_mem hc hs) hname.symm _ hfirst c hc rfl
    rw [hs] at hno
    cases hno
  · intro hapart
    refine ⟨fun c hc hs => filter_entries hnodup hapart hc hs, ?_⟩
    intro c hc hfailed e he hname x hx d hd hnumber
    obtain ⟨k, hk, hrefused, hkname, hown, hrest⟩ := exists_call_of_entry he
    cases hs : k.outcome.succeeded with
    | true =>
      exfalso
      have hne : c.number ≠ k.number := by
        intro h
        rw [call_eq hnodup hc hk h, hs] at hfailed
        cases hfailed
      have hempty := (hapart k hk hs c hc hne (hname.symm.trans hkname)).2
      rw [hown hs, LogCall.sent, hempty] at hx
      cases hx
    | false =>
      have hraised : k.outcome.raised = true := by
        by_contra hr
        rw [succeeded_iff.2 ⟨hrefused, Bool.not_eq_true _ ▸ hr⟩] at hs
        cases hs
      obtain ⟨m, hm, hmrefused, hmnumber⟩ := hrest hraised x hx
      have hmem : m ∈ calls := hm.resolve_right fun h => by cases h
      rw [call_eq hnodup hd hmem (hnumber.trans hmnumber.symm)]
      by_contra hon
      rw [(succeeded_iff.1 (Bool.not_eq_false _ ▸ hon)).1] at hmrefused
      cases hmrefused

end Archive

/-! ## The archive of a pipeline run -/

theorem retrievable_iff {setup : LogSetup} {calls : List LogCall} :
    Retrievable setup calls ↔ AllFit setup none calls ∧ EntriesApart calls := by
  rw [allFit_iff]
  constructor
  · intro h
    exact ⟨⟨fun _ => h.first, h.opened, h.small, h.smallError⟩, h.apart⟩
  · rintro ⟨⟨hfirst, hopened, hsmall, hsmallError⟩, hapart⟩
    exact ⟨hfirst rfl, hopened, hsmall, hsmallError, hapart⟩

theorem map_number (k8s : ℕ → LogRequest → LogOutcome) (requests : List (List Char × LogRequest)) :
    (logCalls k8s requests).map LogCall.number = List.range requests.length := by
  unfold logCalls
  rw [List.map_map]
  show requests.zipIdx.map Prod.snd = _
  rw [List.zipIdx_map_snd, List.range_eq_range']

theorem number_runCalls (k8s : ℕ → LogRequest → LogOutcome) (taskRuns : List TaskRun)
    (namespace_ : List Char) (tailLines : Option ℕ) (onlyFailed : Bool) :
    ((runCalls k8s taskRuns namespace_ tailLines onlyFailed).map LogCall.number).Nodup := by
  unfold runCalls
  rw [map_number]
  exact List.nodup_range

/-- **The logs.** The archive has each step's own log exactly if no request raises before there is
a response, the local file of a step whose request raises can be opened, nothing is too large for
its entry, and no other step has the entry of a step that got its log. -/
theorem logsKept_iff (setup : LogSetup) (k8s : ℕ → LogRequest → LogOutcome)
    (taskRuns : List TaskRun) (namespace_ : List Char) (tailLines : Option ℕ)
    (onlyFailed : Bool) :
    LogsKept (runCalls k8s taskRuns namespace_ tailLines onlyFailed)
        (getAndZipLogs setup k8s taskRuns namespace_ tailLines onlyFailed) ↔
      Retrievable setup (runCalls k8s taskRuns namespace_ tailLines onlyFailed) := by
  have hnodup := number_runCalls k8s taskRuns namespace_ tailLines onlyFailed
  have hresult : ∀ entries,
      getAndZipLogs setup k8s taskRuns namespace_ tailLines onlyFailed = .ok entries ↔
        AllFit setup none (runCalls k8s taskRuns namespace_ tailLines onlyFailed) ∧
          entries = entriesFrom none (runCalls k8s taskRuns namespace_ tailLines onlyFailed) := by
    intro entries
    have hstart : (⟨[], none⟩ : LogState).logResponse = (none : Option LogCall).map LogCall.left :=
      rfl
    rw [← List.nil_append (entriesFrom none _), ← serveAll_ok_iff hstart]
    unfold getAndZipLogs
    cases serveAll setup (runCalls k8s taskRuns namespace_ tailLines onlyFailed) ⟨[], none⟩ with
    | error e =>
      constructor
      · intro h
        cases h
      · rintro ⟨st', h, -⟩
        cases h
    | ok st =>
      constructor
      · intro h
        cases h
        exact ⟨st, rfl, rfl⟩
      · rintro ⟨st', h, rfl⟩
        cases h
        rfl
  rw [retrievable_iff, ← entries_kept_iff hnodup]
  constructor
  · intro h
    obtain ⟨entries, hok⟩ := h.returned
    obtain ⟨hfit, heq⟩ := (hresult entries).1 hok
    subst heq
    exact ⟨hfit, h.own _ hok, h.noOther _ hok⟩
  · rintro ⟨hfit, hown, hother⟩
    refine ⟨⟨_, (hresult _).2 ⟨hfit, rfl⟩⟩, ?_, ?_⟩
    · intro entries hok
      rw [((hresult entries).1 hok).2]
      exact hown
    · intro entries hok
      rw [((hresult entries).1 hok).2]
      exact hother

/-- One step, whose log is gone: there is no directory for the note. -/
theorem logsKept_fails :
    ¬ LogsKept
      (runCalls (fun _ _ => .apiException 404)
        [⟨['t'], ['p'], ['r'], [⟨['s'], ['c'], some 1⟩]⟩] [] none false)
      (getAndZipLogs ⟨fun _ => false, ⟨fun body => [body], List.append_nil⟩⟩
        (fun _ _ => .apiException 404) [⟨['t'], ['p'], ['r'], [⟨['s'], ['c'], some 1⟩]⟩] [] none
        false) := by
  intro h
  obtain ⟨entries, hok⟩ := h.returned
  cases hok

/-! ## The names of the entries -/

/-- An entry has the name of its task, its place and its step. -/
theorem zipComp_inj {task task' step step' : List Char} {idx idx' : ℕ} (htask : '/' ∉ task)
    (htask' : '/' ∉ task') (h : zipComp task idx step = zipComp task' idx' step') :
    task = task' ∧ idx = idx' ∧ step = step' := by
  have hdigits : ∀ n, '_' ∉ Text.zeroPad 2 n := by
    intro n hmem
    have hdigit := Text.isDigit_of_mem_zeroPad hmem
    exact absurd hdigit (by decide)
  obtain ⟨rfl, hrest⟩ := Text.append_cons_inj htask htask' h
  obtain ⟨hidx, hstep⟩ := Text.append_cons_inj (hdigits idx) (hdigits idx') hrest
  refine ⟨rfl, ?_, List.append_cancel_right hstep⟩
  rw [← Text.ofDigitChars_zeroPad 2 idx, hidx, Text.ofDigitChars_zeroPad]

theorem nodup_requests (info : TaskRunInfo) (namespace_ : List Char) (tailLines : Option ℕ)
    (hslash : '/' ∉ info.name) :
    ((info.requests namespace_ tailLines).map Prod.fst).Nodup := by
  unfold TaskRunInfo.requests
  rw [List.map_map]
  refine List.Nodup.map_on ?_ (List.Nodup.of_map Prod.snd ?_)
  · intro x hx y hy heq
    obtain ⟨-, hidx, -⟩ := zipComp_inj hslash hslash heq
    rw [List.mem_zipIdx_iff_getElem?] at hx hy
    rw [hidx, hy] at hx
    exact Prod.ext (Option.some.inj hx).symm hidx
  · rw [List.zipIdx_map_snd]
    exact List.nodup_range'

theorem name_requests {info : TaskRunInfo} {namespace_ : List Char} {tailLines : Option ℕ}
    {name : List Char} (h : name ∈ (info.requests namespace_ tailLines).map Prod.fst) :
    ∃ idx step, name = zipComp info.name idx step := by
  unfold TaskRunInfo.requests at h
  rw [List.map_map] at h
  obtain ⟨⟨⟨step, container⟩, idx⟩, -, rfl⟩ := List.mem_map.1 h
  exact ⟨idx, step, rfl⟩

theorem map_name_getTaskRunInfos (taskRuns : List TaskRun) (onlyFailed : Bool) :
    ((getTaskRunInfos taskRuns onlyFailed).map TaskRunInfo.name).Sublist
      (taskRuns.map TaskRun.pipelineTaskName) := by
  unfold getTaskRunInfos
  induction taskRuns with
  | nil => exact List.Sublist.refl _
  | cons tr rest ih =>
    rw [List.filterMap_cons, List.map_cons]
    split
    · exact ih.trans (List.sublist_cons_self _ _)
    · next info hinfo =>
      have hname : info.name = tr.pipelineTaskName := by
        split at hinfo
        · split at hinfo
          · cases hinfo
            rfl
          · cases hinfo
        · cases hinfo
          rfl
      rw [List.map_cons, hname]
      exact ih.cons_cons _

/-- Without two runs of one task no entry has two steps. -/
theorem entriesApart_runCalls (k8s : ℕ → LogRequest → LogOutcome) {taskRuns : List TaskRun}
    (namespace_ : List Char) (tailLines : Option ℕ) (onlyFailed : Bool)
    (hslash : ∀ tr ∈ taskRuns, '/' ∉ tr.pipelineTaskName)
    (hdistinct : (taskRuns.map TaskRun.pipelineTaskName).Nodup) :
    EntriesApart (runCalls k8s taskRuns namespace_ tailLines onlyFailed) := by
  have hsub := map_name_getTaskRunInfos taskRuns onlyFailed
  have hinfoSlash : ∀ info ∈ getTaskRunInfos taskRuns onlyFailed, '/' ∉ info.name := by
    intro info hinfo
    obtain ⟨tr, htr, hname⟩ := List.mem_map.1 (hsub.subset (List.mem_map_of_mem hinfo))
    rw [← hname]
    exact hslash tr htr
  have hnames : (((getTaskRunInfos taskRuns onlyFailed).flatMap
      fun info => info.requests namespace_ tailLines).map Prod.fst).Nodup := by
    rw [List.map_flatMap, List.nodup_flatMap]
    refine ⟨fun info hinfo => nodup_requests info _ _ (hinfoSlash info hinfo), ?_⟩
    have hpair := hsub.nodup hdistinct
    rw [List.Nodup, List.pairwise_map] at hpair
    refine hpair.imp_of_mem ?_
    intro info info' hinfo hinfo' hne name hname hname'
    obtain ⟨idx, step, rfl⟩ := name_requests hname
    obtain ⟨idx', step', heq⟩ := name_requests hname'
    exact hne (zipComp_inj (hinfoSlash info hinfo) (hinfoSlash info' hinfo') heq).1
  intro c hc hs d hd hnumber hname
  exfalso
  obtain ⟨⟨⟨name, request⟩, n⟩, hn, rfl⟩ := List.mem_map.1 hc
  obtain ⟨⟨⟨name', request'⟩, m⟩, hm, rfl⟩ := List.mem_map.1 hd
  apply hnumber
  dsimp only at hname ⊢
  subst hname
  rw [List.mem_zipIdx_iff_getElem?] at hn hm
  refine (List.getElem?_inj ?_ hnames).1 ?_
  · rw [List.length_map]
    exact (List.getElem?_eq_some_iff.1 hm).1
  · rw [List.getElem?_map, List.getElem?_map, hn, hm]
    rfl

end Glci
