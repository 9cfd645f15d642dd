import GardenLinux.Feat.FeatureSet
import GardenLinux.Tkn.Steps

/-!
# The calls at the end of the scripts

The last line of a script calls the function of its step.  The script says what is passed by
references and by quotes around them; what the function is given in the end is what tekton has
put in their place, read by the interpreter of the script.

What is proved here:

* `text_callPieces` — the last line as a text with references;
* `readCall_render` — it is read as the call of the step with the values of its parameters, if
  nothing in a value has a meaning between the quotes;
* `runs_call` — so for a whole script, whatever stands in front of its last line;
* `wellFormed_of_mem_stepSources` — the names in the steps allow it.
-/

namespace Tkn

open Template
open Bash (squote dquote)

/-- A call of a function of the Python language, or the words of a command. -/
inductive Call
  | python (callable : List Char) (args : PyCall.Args)
  | shell (words : List (List Char))
  deriving DecidableEq, Repr

def readCall : ScriptType → List Char → Option Call
  | .python3, line => (PyCall.read line).map fun call => .python call.1 call.2
  | .bourneShell, line => (Bash.command line).map .shell

/-- The call that a step is for: its function with the values of its parameters, and the files
of its results. -/
def StepSource.call (source : StepSource) (value path : NamedParam → List Char) : Call :=
  match source.scriptType with
  | .python3 => .python source.callable.toList
      (source.params.map (fun param => (pyName param.name, value param)) ++
        source.results.map fun result => (pyName result.name, path result))
  | .bourneShell => .shell (source.callable.toList :: source.params.map value)

/-- The references of a call. -/
def StepSource.keys (source : StepSource) : List (List Char) :=
  source.params.map (·.key) ++ source.results.map (·.pathKey)

/-- What has no meaning inside the quotes of a call. -/
def isPassableChar : ScriptType → Char → Bool
  | .python3, c => PyCall.isTextChar c
  | .bourneShell, c => Bash.isDquotedChar c && c ≠ '\n'

/-- A step whose call can be read. -/
structure StepSource.WellFormed (source : StepSource) : Prop where
  callable : PyCall.IsName source.callable.toList
  params_ne : source.params ≠ []
  names : ∀ param ∈ source.params ++ source.results, PyCall.IsName (pyName param.name)
  plain : ∀ param ∈ source.params ++ source.results,
    '$' ∉ param.name.toList ∧ ')' ∉ param.name.toList
  nodup : ((source.params ++ source.results).map fun param => pyName param.name).Nodup
  shell : source.scriptType = .bourneShell → source.results = []

/-- A call as it is written down. -/
def Call.render : Call → List Char
  | .python callable args => PyCall.render callable args
  | .shell [] => []
  | .shell (name :: words) => Bash.renderCommand name words

/-- A reference between quotes. -/
def argPieces (quote : Char) (lead key : List Char) : List Piece :=
  [.lit (lead ++ [quote]), .var key, .lit [quote]]

/-- The last line of a script as a text with references. -/
def StepSource.callPieces (source : StepSource) : List Piece :=
  match source.scriptType with
  | .python3 =>
    .lit (source.callable.toList ++ ['(']) ::
      ([.lit [',']].intercalate
        (source.params.map (fun param => argPieces squote (pyName param.name ++ ['=']) param.key) ++
          source.results.map fun result =>
            argPieces squote (pyName result.name ++ ['=']) result.pathKey) ++ [.lit [')']])
  | .bourneShell =>
    .lit (source.callable.toList ++ [' ']) ::
      [.lit [' ']].intercalate (source.params.map fun param => argPieces dquote [] param.key)

theorem fill_callPieces (source : StepSource) (value : List Char → List Char) :
    fill value source.callPieces =
      (source.call (fun param => value param.key) fun result => value result.pathKey).render := by
  have hlit (s : List Char) : fill value [.lit s] = s := by simp
  cases h : source.scriptType with
  | python3 =>
    simp [StepSource.callPieces, StepSource.call, h, Call.render, PyCall.render, fill_intercalate,
      Function.comp_def, argPieces, PyCall.renderArg]
  | bourneShell =>
    simp [StepSource.callPieces, StepSource.call, h, Call.render, Bash.renderCommand,
      fill_intercalate, Function.comp_def, argPieces, Bash.dquoted]

/-- The last line that `task_step_script` writes. -/
theorem text_callPieces {source : StepSource} (h : source.WellFormed) :
    text source.callPieces =
      callableStr source.scriptType source.callable source.params source.results := by
  rw [text_eq_fill, fill_callPieces]
  cases htype : source.scriptType with
  | python3 =>
    by_cases hresults : source.results = []
    · simp [StepSource.call, htype, Call.render, PyCall.render, callableStr, pythonArgs, hresults,
        PyCall.renderArg, Function.comp_def]
    · have hargs : source.params.map (fun param =>
          pyName param.name ++ '=' :: squote :: (reference param.key ++ [squote])) ≠ [] := by
        simpa using h.params_ne
      have hpaths : source.results.map (fun result =>
          pyName result.name ++ '=' :: squote :: (reference result.pathKey ++ [squote])) ≠ [] := by
        simpa using hresults
      have hsplit := intercalate_append [','] hargs hpaths
      simp [StepSource.call, htype, Call.render, PyCall.render, callableStr, pythonArgs, hresults,
        PyCall.renderArg, Function.comp_def, hsplit]
  | bourneShell =>
    simp [StepSource.call, htype, Call.render, Bash.renderCommand, callableStr, shellArgs,
      h.shell htype, Bash.dquoted, Function.comp_def]

/-! ## Reading the call -/

/-- What has a meaning of its own in a command. -/
def meaningful : List Char :=
  squote :: dquote :: Bash.backslash :: ' ' :: '\t' :: '\n' :: ')' :: Char.ofNat 96 ::
    "$&;|<>(*?[]{}~#!".toList

theorem isBareChar_of_isNameChar {c : Char} (h : PyCall.isNameChar c) : Bash.isBareChar c := by
  have hno : meaningful.all fun c => !PyCall.isNameChar c := by decide
  by_contra hbare
  have hmem : c ∈ meaningful := by
    simp only [Bash.isBareChar, Bash.endsWord, Bash.isBlank, Bash.isSpecial] at hbare
    simp [meaningful] at hbare ⊢
    tauto
  simpa [h] using List.all_eq_true.1 hno c hmem

/-- What the call of a step needs of the values. -/
def StepSource.Passes (source : StepSource) (value path : NamedParam → List Char) : Prop :=
  (∀ param ∈ source.params, ∀ c ∈ value param, isPassableChar source.scriptType c) ∧
    ∀ result ∈ source.results, ∀ c ∈ path result, isPassableChar source.scriptType c

/-- The last line is read as the call of the step. -/
theorem readCall_render {source : StepSource} {value path : NamedParam → List Char}
    (h : source.WellFormed) (hpass : source.Passes value path) :
    readCall source.scriptType (source.call value path).render = some (source.call value path) := by
  obtain ⟨hvalues, hpaths⟩ := hpass
  cases htype : source.scriptType with
  | python3 =>
    simp only [htype, isPassableChar] at hvalues hpaths
    have hcall : PyCall.WellFormed source.callable.toList
        (source.params.map (fun param => (pyName param.name, value param)) ++
          source.results.map fun result => (pyName result.name, path result)) := by
      refine ⟨h.callable, ?_, by simpa [Function.comp_def] using h.nodup, ?_⟩
      · intro arg harg
        simp only [List.mem_append, List.mem_map] at harg
        rcases harg with ⟨param, hparam, rfl⟩ | ⟨result, hresult, rfl⟩
        · exact h.names param (List.mem_append_left _ hparam)
        · exact h.names result (List.mem_append_right _ hresult)
      · intro arg harg
        simp only [List.mem_append, List.mem_map] at harg
        rcases harg with ⟨param, hparam, rfl⟩ | ⟨result, hresult, rfl⟩
        · exact hvalues param hparam
        · exact hpaths result hresult
    simp [readCall, StepSource.call, htype, Call.render, PyCall.read_render hcall]
  | bourneShell =>
    have hdquoted : ∀ v ∈ source.params.map value, ∀ c ∈ v, Bash.isDquotedChar c := by
      intro v hv c hc
      obtain ⟨param, hparam, rfl⟩ := List.mem_map.1 hv
      have hpass := hvalues param hparam c hc
      simp only [htype, isPassableChar, Bool.and_eq_true] at hpass
      exact hpass.1
    simp [readCall, StepSource.call, htype, Call.render,
      Bash.command_render h.callable.1
        (fun c hc => isBareChar_of_isNameChar (h.callable.2.1 c hc)) hdquoted]

/-! ## The last line of a script -/

/-- What is written out in a call. -/
def isCallChar (c : Char) : Bool :=
  PyCall.isNameChar c || c ∈ [squote, dquote, ',', '=', '(', ')', ' ']

theorem isCallChar_dollar : ¬ isCallChar '$' := by decide

theorem isCallChar_newline : ¬ isCallChar '\n' := by decide

theorem argPieces_cases {quote : Char} {lead key : List Char} {p : Piece}
    (hquote : isCallChar quote) (hlead : ∀ c ∈ lead, isCallChar c)
    (h : p ∈ argPieces quote lead key) : (∃ s, p = .lit s ∧ ∀ c ∈ s, isCallChar c) ∨ p = .var key := by
  simp only [argPieces, List.mem_cons, List.not_mem_nil, or_false] at h
  rcases h with rfl | rfl | rfl
  · refine .inl ⟨_, rfl, fun c hc => ?_⟩
    rcases List.mem_append.1 hc with hc | hc
    · exact hlead c hc
    · exact List.mem_singleton.1 hc ▸ hquote
  · exact .inr rfl
  · exact .inl ⟨_, rfl, fun c hc => List.mem_singleton.1 hc ▸ hquote⟩

/-- The parts of a call: what is written out, and the references of the step. -/
theorem callPieces_cases {source : StepSource} (h : source.WellFormed) {p : Piece}
    (hp : p ∈ source.callPieces) :
    (∃ s, p = .lit s ∧ ∀ c ∈ s, isCallChar c) ∨ ∃ key ∈ source.keys, p = .var key := by
  have hname {s : List Char} (hs : PyCall.IsName s) : ∀ c ∈ s, isCallChar c := fun c hc => by
    simp [isCallChar, hs.2.1 c hc]
  have hwith {s : List Char} (hs : PyCall.IsName s) {d : Char} (hd : isCallChar d) :
      ∀ c ∈ s ++ [d], isCallChar c := fun c hc => by
    rcases List.mem_append.1 hc with hc | hc
    · exact hname hs c hc
    · exact List.mem_singleton.1 hc ▸ hd
  have hone {d : Char} (hd : isCallChar d) : ∀ c ∈ [d], isCallChar c := fun c hc =>
    List.mem_singleton.1 hc ▸ hd
  cases htype : source.scriptType with
  | python3 =>
    simp only [StepSource.callPieces, htype, List.mem_cons, List.mem_append, List.not_mem_nil,
      or_false] at hp
    rcases hp with rfl | hargs | rfl
    · exact .inl ⟨_, rfl, hwith h.callable (by decide)⟩
    · rcases mem_intercalate hargs with hsep | ⟨part, hpart, hp⟩
      · exact .inl ⟨_, List.mem_singleton.1 hsep, hone (by decide)⟩
      · simp only [List.mem_append, List.mem_map] at hpart
        rcases hpart with ⟨param, hparam, rfl⟩ | ⟨result, hresult, rfl⟩
        · refine (argPieces_cases (by decide) (hwith (h.names _ ?_) (by decide)) hp).imp_right
            fun heq => ⟨_, List.mem_append_left _ (List.mem_map_of_mem hparam), heq⟩
          exact List.mem_append_left _ hparam
        · refine (argPieces_cases (by decide) (hwith (h.names _ ?_) (by decide)) hp).imp_right
            fun heq => ⟨_, List.mem_append_right _ (List.mem_map_of_mem hresult), heq⟩
          exact List.mem_append_right _ hresult
    · exact .inl ⟨_, rfl, hone (by decide)⟩
  | bourneShell =>
    simp only [StepSource.callPieces, htype, List.mem_cons] at hp
    rcases hp with rfl | hargs
    · exact .inl ⟨_, rfl, hwith h.callable (by decide)⟩
    · rcases mem_intercalate hargs with hsep | ⟨part, hpart, hp⟩
      · exact .inl ⟨_, List.mem_singleton.1 hsep, hone (by decide)⟩
      · obtain ⟨param, hparam, rfl⟩ := List.mem_map.1 hpart
        exact (argPieces_cases (by decide) (by simp) hp).imp_right
          fun heq => ⟨_, List.mem_append_left _ (List.mem_map_of_mem hparam), heq⟩

theorem key_plain {source : StepSource} (h : source.WellFormed) {key : List Char}
    (hkey : key ∈ source.keys) : '$' ∉ key ∧ ')' ∉ key := by
  rcases List.mem_append.1 hkey with hkey | hkey
  · obtain ⟨param, hparam, rfl⟩ := List.mem_map.1 hkey
    obtain ⟨hdollar, hbracket⟩ := h.plain param (List.mem_append_left _ hparam)
    rw [NamedParam.key, String.toList_append, List.mem_append, List.mem_append, not_or, not_or]
    exact ⟨⟨by decide, hdollar⟩, by decide, hbracket⟩
  · obtain ⟨result, hresult, rfl⟩ := List.mem_map.1 hkey
    obtain ⟨hdollar, hbracket⟩ := h.plain result (List.mem_append_right _ hresult)
    simp only [NamedParam.pathKey, String.toList_append, List.mem_append, not_or]
    exact ⟨⟨⟨by decide, hdollar⟩, by decide⟩, ⟨by decide, hbracket⟩, by decide⟩

theorem plain_callPieces {source : StepSource} (h : source.WellFormed) :
    ∀ p ∈ source.callPieces, p.Plain := by
  intro p hp
  rcases callPieces_cases h hp with ⟨s, rfl, hs⟩ | ⟨key, hkey, rfl⟩
  · have hdollar : '$' ∉ s := fun hmem => isCallChar_dollar (hs _ hmem)
    exact hdollar
  · have hkey' := key_plain h hkey
    exact hkey'

theorem newline_fill_callPieces {source : StepSource} {value : List Char → List Char}
    (h : source.WellFormed)
    (hpass : source.Passes (fun param => value param.key) fun result => value result.pathKey) :
    '\n' ∉ fill value source.callPieces := by
  have hno : ¬ isPassableChar source.scriptType '\n' := by
    cases source.scriptType <;> decide
  intro hmem
  obtain ⟨p, hp, hmem⟩ := List.mem_flatMap.1 hmem
  rcases callPieces_cases h hp with ⟨s, rfl, hs⟩ | ⟨key, hkey, rfl⟩
  · exact isCallChar_newline (hs _ hmem)
  · rcases List.mem_append.1 hkey with hkey | hkey
    · obtain ⟨param, hparam, rfl⟩ := List.mem_map.1 hkey
      exact hno (hpass.1 param hparam _ hmem)
    · obtain ⟨result, hresult, rfl⟩ := List.mem_map.1 hkey
      exact hno (hpass.2 result hresult _ hmem)

/-- What stands behind the last newline. -/
def lastLine (script : List Char) : List Char := script.rtakeWhile (· ≠ '\n')

theorem lastLine_append {line : List Char} (h : '\n' ∉ line) (body : List Char) :
    lastLine (body ++ '\n' :: line) = line := by
  have hall : ∀ c ∈ line.reverse, decide (c ≠ '\n') = true := by
    intro c hc
    simpa using fun heq : c = '\n' => h (heq ▸ List.mem_reverse.1 hc)
  rw [lastLine, List.rtakeWhile, List.reverse_append, List.reverse_cons, List.append_assoc,
    List.takeWhile_append_of_pos hall]
  simp

theorem of_step_ok {checkout : Checkout} {source : StepSource} {step : TaskStep}
    (h : source.step checkout = .ok step) :
    step.name = source.name ∧ step.image = source.image ∧ (source.callable ≠ "" →
      ∃ body, step.script = body ++ '\n' ::
        callableStr source.scriptType source.callable source.params source.results) := by
  obtain ⟨script, hscript, h⟩ := GardenFeat.bind_ok_iff.1 h
  obtain rfl := Except.ok.inj h
  refine ⟨rfl, rfl, fun hne => ?_⟩
  obtain ⟨text, -, hscript⟩ := GardenFeat.bind_ok_iff.1 hscript
  obtain rfl := Except.ok.inj hscript
  rw [if_neg hne, intercalate_append _ (by simp) (by simp), List.intercalate_singleton,
    List.append_assoc]
  exact ⟨_, rfl⟩

theorem keys_of_mem_names {source : StepSource} (h : source.WellFormed) {key : List Char}
    (hkey : key ∈ names source.callPieces) : key ∈ source.keys := by
  rcases callPieces_cases h (mem_names_iff.1 hkey) with ⟨s, heq, -⟩ | ⟨key', hkey', heq⟩
  · cases heq
  · cases heq
    exact hkey'

theorem StepSource.call_congr {source : StepSource} {value value' path path' : NamedParam → List Char}
    (hvalue : ∀ param ∈ source.params, value param = value' param)
    (hpath : ∀ result ∈ source.results, path result = path' result) :
    source.call value path = source.call value' path' := by
  have hargs : source.params.map (fun param => (pyName param.name, value param)) =
      source.params.map fun param => (pyName param.name, value' param) :=
    List.map_congr_left fun param hparam => by rw [hvalue param hparam]
  have hresults : source.results.map (fun result => (pyName result.name, path result)) =
      source.results.map fun result => (pyName result.name, path' result) :=
    List.map_congr_left fun result hresult => by rw [hpath result hresult]
  rw [StepSource.call, StepSource.call, hargs, hresults, List.map_congr_left hvalue]

/-- With values for its references the script of a step ends with the call of the step. -/
theorem runs_call (sub : Substitution) {checkout : Checkout} {source : StepSource}
    {step : TaskStep} {rs : List (List Char × List Char)} {value path : NamedParam → List Char}
    (h : source.WellFormed) (hstep : source.step checkout = .ok step) (hrs : Values rs)
    (hvalue : ∀ param ∈ source.params, rs.lookup param.key = some (value param))
    (hpath : ∀ result ∈ source.results, rs.lookup result.pathKey = some (path result))
    (hpass : source.Passes value path) :
    readCall source.scriptType (lastLine (sub.put rs step.script)) =
      some (source.call value path) := by
  have hne : source.callable ≠ "" := by
    rintro hempty
    exact h.callable.1 (by rw [hempty]; rfl)
  obtain ⟨-, -, hscript⟩ := of_step_ok hstep
  obtain ⟨body, hbody⟩ := hscript hne
  -- the value of a reference
  let v : List Char → List Char := fun key => (rs.lookup key).getD []
  have hv : ∀ param ∈ source.params, v param.key = value param := fun param hparam => by
    simp [v, hvalue param hparam]
  have hv' : ∀ result ∈ source.results, v result.pathKey = path result := fun result hresult => by
    simp [v, hpath result hresult]
  have hpass' : source.Passes (fun param => v param.key) fun result => v result.pathKey :=
    ⟨fun param hparam => by simpa only [hv param hparam] using hpass.1 param hparam,
      fun result hresult => by simpa only [hv' result hresult] using hpass.2 result hresult⟩
  have hline : sub.put rs (callableStr source.scriptType source.callable source.params
      source.results) = fill v source.callPieces := by
    rw [← text_callPieces h]
    refine sub.put_text hrs (plain_callPieces h) fun key hkey => ?_
    rcases List.mem_append.1 (keys_of_mem_names h hkey) with hkey | hkey
    · obtain ⟨param, hparam, rfl⟩ := List.mem_map.1 hkey
      rw [hvalue param hparam, hv param hparam]
    · obtain ⟨result, hresult, rfl⟩ := List.mem_map.1 hkey
      rw [hpath result hresult, hv' result hresult]
  rw [hbody, sub.put_lines hrs, hline, lastLine_append (newline_fill_callPieces h hpass'),
    fill_callPieces, source.call_congr hv hv', readCall_render h hpass]

/-- The steps have calls that can be read. -/
theorem wellFormed_of_mem_stepSources {checkout : Checkout} {source : StepSource}
    (h : source ∈ stepSources checkout) : source.WellFormed := by
  have hsource : source.callable.toList ≠ [] ∧
      source.callable.toList.all PyCall.isNameChar ∧
      (source.callable.toList.head?.all fun c => !c.isDigit) ∧
      source.callable ∉ PyCall.reserved ∧ source.params ≠ [] ∧
      ((source.params ++ source.results).map (·.name)).Nodup ∧
      (source.scriptType = .bourneShell → source.results = []) := by
    refine of_mem_stepSources h ?_ ?_
    · exact fun hclone => hclone
    · decide
  obtain ⟨hne, hchars, hdigit, hreserved, hparams, hnodup, hshell⟩ := hsource
  have hname : ∀ param ∈ source.params ++ source.results, PyCall.IsName param.name.toList :=
    fun param hparam => isName_of_known (List.mem_append.2 ((List.mem_append.1 hparam).imp
      ((known_of_mem_stepSources h).1 param) ((known_of_mem_stepSources h).2 param)))
  have hpyName : ∀ param ∈ source.params ++ source.results,
      pyName param.name = param.name.toList := fun param hparam => pyName_eq (hname param hparam).2.1
  have hno {c : Char} (hc : ¬ PyCall.isNameChar c) : ∀ param ∈ source.params ++ source.results,
      c ∉ param.name.toList := fun param hparam hmem => hc ((hname param hparam).2.1 c hmem)
  refine ⟨⟨hne, List.all_eq_true.1 hchars, ?_, by rwa [String.ofList_toList]⟩, hparams,
    fun param hparam => hpyName param hparam ▸ hname param hparam, fun param hparam =>
      ⟨hno (by decide) param hparam, hno (by decide) param hparam⟩, ?_, hshell⟩
  · simpa [Option.all_eq_true] using hdigit
  · rw [List.map_congr_left hpyName]
    have hinj : Function.Injective String.toList := fun _ _ => String.toList_inj.1
    simpa [Function.comp_def] using hnodup.map hinj

end Tkn
