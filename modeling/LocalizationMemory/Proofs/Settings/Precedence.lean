import LocalizationMemory.Proofs.Dict
import LocalizationMemory.Proofs.Settings.Decimal
import LocalizationMemory.Proofs.Settings.EnvFile
import LocalizationMemory.Settings.Environment
import LocalizationMemory.Text.Bytes

/-!
# Which value of a variable counts

A variable can have a value in three places: in the variables of the process, in the nearest
local file, which is looked for in seven directories only, and in the nearest common file.
The first place that sets it counts, and within a file the statement that stands first.
What is blank sets a variable as well, although no setting is taken from it. Files set all
the variables that they name, so one of them can end the reading for every setting: it
does if it is to give a variable a value with a zero character.

## Main definitions

* `Settings.effective?` — the value of a variable that counts
* `Settings.Refuses` — a file is to set a variable to a value that it cannot have
* `Settings.FollowsValues` — settings are as the values of variables say
* `Settings.FollowsPrecedence` — reading settings ends as the values that count say

## Main results

* `Settings.ofVariables_eq_ok_iff` — settings that are read follow the values
* `Settings.completeVariables_of_fit` — files complete the variables to the values that count
* `Settings.followsPrecedence_iff` — reading settings follows the values that count, unless a
  file is refused
-/

namespace LocalizationMemory.Settings

open EnvFile (Assignment assign firstValue? GivesUnfit isUnfit)

variable {directories : List EnvDirectory} {process : ProcessVariables} {env : Variables}
  {value? : String → Option String}

/-! ### Settings from values -/

/-- A variable has a value that is not blank. -/
def Gives (value? : String → Option String) (name text : String) : Prop :=
  value? name = some text ∧ Text.trim text ≠ ""

/-- A setting is taken from the value of a variable, or it is the default because the variable has
no value or a blank one. -/
def IsTaken {α : Type} (value? : String → Option String) (name : String) (default : α)
    (takes : String → α → Prop) (a : α) : Prop :=
  (∃ text, Gives value? name text ∧ takes text a) ∨ (∀ text, ¬ Gives value? name text) ∧ a = default

/-- Settings are as the values of the three variables say. -/
structure FollowsValues (value? : String → Option String) (s : Settings) : Prop where
  path : IsTaken value? pathVariable "mods_cache.sqlite"
    (fun text path => path = text) s.dbPath
  timeout : IsTaken value? timeoutVariable 5000
    (fun text ms => Decimal.Denotes (Text.trim text) ms.toNat) s.busyTimeoutMs
  language : IsTaken value? languageVariable "zh-CN"
    (fun text language => language = Text.trim text) s.defaultLanguage

theorem notBlank_eq_some_iff {name text : String} :
    notBlank (value? name) = some text ↔ Gives value? name text := by
  rw [notBlank, Option.filter_eq_some_iff, Bool.not_eq_true', ← Bool.not_eq_true,
    Text.allBlank_iff_trim_eq_empty]
  rfl

/-- A setting is as it is read: with a value that is not blank, or without one. -/
theorem isTaken_iff {α : Type} {name : String} {default a : α} {takes : String → α → Prop} :
    IsTaken value? name default takes a ↔
      match notBlank (value? name) with
      | none => a = default
      | some text => takes text a := by
  split
  · next absent =>
    have none (text : String) : ¬ Gives value? name text := fun gives => by
      rw [notBlank_eq_some_iff.mpr gives] at absent
      cases absent
    simp [IsTaken, none]
  · next text given =>
    have gives : Gives value? name text := notBlank_eq_some_iff.mp given
    constructor
    · rintro (⟨text', gives', taken⟩ | ⟨absent, -⟩)
      · obtain rfl := Option.some.inj (gives.1.symm.trans gives'.1)
        exact taken
      · exact absurd gives (absent text)
    · exact fun taken => .inl ⟨text, gives, taken⟩

/-- What is taken of a text is a function of it. -/
theorem isTaken_map_iff {α : Type} {name : String} {default a : α} {f : String → α} :
    IsTaken value? name default (fun text a => a = f text) a ↔
      ((notBlank (value? name)).map f).getD default = a := by
  rw [isTaken_iff]
  cases notBlank (value? name) <;> exact eq_comm

/-- The time a write waits: read from the value of its variable, or the default. -/
def timeoutOf (value? : String → Option String) : Except Fault UInt64 :=
  match notBlank (value? timeoutVariable) with
  | none => .ok 5000
  | some text => readTimeout text

theorem isTaken_timeout_iff {ms : UInt64} :
    IsTaken value? timeoutVariable 5000
        (fun text ms => Decimal.Denotes (Text.trim text) ms.toNat) ms ↔
      timeoutOf value? = .ok ms := by
  rw [isTaken_iff, timeoutOf]
  cases notBlank (value? timeoutVariable) with
  | none => rw [Except.ok.injEq, eq_comm]
  | some text =>
    simp only [readTimeout, ← Decimal.parseWord_eq_ok_iff]
    cases Decimal.parseWord (Text.trim text) <;> simp [Except.mapError]

/-- Only the timeout can be refused. -/
theorem ofVariables_eq_map : ofVariables value? = (timeoutOf value?).map fun ms =>
    { dbPath := (notBlank (value? pathVariable)).getD "mods_cache.sqlite"
      busyTimeoutMs := ms
      defaultLanguage := ((notBlank (value? languageVariable)).map Text.trim).getD "zh-CN" } := by
  rw [ofVariables, timeoutOf]
  cases notBlank (value? timeoutVariable) <;> rfl

/-- Settings that are read follow the values. -/
theorem ofVariables_eq_ok_iff {s : Settings} :
    ofVariables value? = .ok s ↔ FollowsValues value? s := by
  have path : IsTaken value? pathVariable "mods_cache.sqlite" (fun text path => path = text)
      s.dbPath ↔ (notBlank (value? pathVariable)).getD "mods_cache.sqlite" = s.dbPath :=
    (isTaken_map_iff (f := id)).trans (by rw [Option.map_id, id])
  have follows_iff : FollowsValues value? s ↔
      (notBlank (value? pathVariable)).getD "mods_cache.sqlite" = s.dbPath ∧
      timeoutOf value? = .ok s.busyTimeoutMs ∧
      ((notBlank (value? languageVariable)).map Text.trim).getD "zh-CN" = s.defaultLanguage := by
    rw [← path, ← isTaken_timeout_iff, ← isTaken_map_iff]
    exact ⟨fun h => ⟨h.path, h.timeout, h.language⟩, fun ⟨h, h', h''⟩ => ⟨h, h', h''⟩⟩
  rw [follows_iff, ofVariables_eq_map]
  obtain ⟨dbPath, busyTimeoutMs, defaultLanguage⟩ := s
  cases timeoutOf value? <;> simp [Except.map]

/-- Settings are refused exactly if the timeout has a value that denotes no number of sixty-four
bits. -/
theorem ofVariables_eq_error_iff {fault : Fault} :
    ofVariables value? = .error fault ↔ ∃ text cause, Gives value? timeoutVariable text ∧
      Decimal.parseWord (Text.trim text) = .error cause ∧
        fault = .setting (.notAnInteger timeoutVariable cause) := by
  have refused : ofVariables value? = .error fault ↔ timeoutOf value? = .error fault := by
    rw [ofVariables_eq_map]
    cases timeoutOf value? <;> simp [Except.map]
  rw [refused, timeoutOf]
  constructor
  · intro fails
    cases given : notBlank (value? timeoutVariable) with
    | none =>
      rw [given] at fails
      cases fails
    | some text =>
      rw [given] at fails
      have gives := notBlank_eq_some_iff.mp given
      cases read : Decimal.parseWord (Text.trim text) with
      | ok ms => simp [readTimeout, read, Except.mapError] at fails
      | error cause =>
        simp only [readTimeout, read, Except.mapError, Except.error.injEq] at fails
        exact ⟨text, cause, gives, read, fails.symm⟩
  · rintro ⟨text, cause, gives, read, rfl⟩
    rw [notBlank_eq_some_iff.mpr gives]
    simp [readTimeout, read, Except.mapError]

/-! ### Values that count -/

/-- What is read of what was found: of a file its assignments, of a directory nothing. -/
def assignmentsOf (node : Option EnvNode) (env : Variables) : List Assignment :=
  match node with
  | some (.file bytes) => EnvFile.assignments env ∅ (EnvFile.statements bytes)
  | _ => []

/-- What is read of the local file. -/
def localAssignments (directories : List EnvDirectory) (env : Variables) : List Assignment :=
  assignmentsOf (localFile? directories) env

/-- What is read of the common file, where values may ask for what the local file set. -/
def commonAssignments (directories : List EnvDirectory) (env : Variables) : List Assignment :=
  assignmentsOf (commonFile? directories) ((localAssignments directories env).foldl assign env)

/-- The places that a variable can have a value in, the one first that counts before the others. -/
def places (directories : List EnvDirectory) (env : Variables) : List (String → Option String) :=
  [env.get?, firstValue? (localAssignments directories env),
    firstValue? (commonAssignments directories env)]

/-- The value of a variable that counts: that of the first place that sets it. -/
def effective? (directories : List EnvDirectory) (env : Variables) (name : String) :
    Option String :=
  (places directories env).findSome? (· name)

/-- A file is to set a variable to a value that none can have. -/
def Refuses (directories : List EnvDirectory) (env : Variables) : Prop :=
  ∃ name value, env.get? name = none ∧ effective? directories env name = some value ∧
    isUnfit value = true

theorem effective?_eq {name : String} :
    effective? directories env name = (env.get? name).or
      ((firstValue? (localAssignments directories env) name).or
        (firstValue? (commonAssignments directories env) name)) := by
  simp only [effective?, places, List.findSome?_cons, List.findSome?_nil]
  cases env.get? name <;> cases firstValue? (localAssignments directories env) name <;>
    cases firstValue? (commonAssignments directories env) name <;> rfl

/-- One of the two files is refused. -/
theorem refuses_iff : Refuses directories env ↔
    GivesUnfit env (localAssignments directories env) ∨
      GivesUnfit ((localAssignments directories env).foldl assign env)
        (commonAssignments directories env) := by
  constructor
  · rintro ⟨name, value, unset, counts, unfit⟩
    rw [effective?_eq, unset, Option.none_or, Option.or_eq_some_iff] at counts
    rcases counts with first | ⟨silent, first⟩
    · exact .inl ⟨name, value, unset, first, unfit⟩
    · refine .inr ⟨name, value, ?_, first, unfit⟩
      rw [EnvFile.get?_foldl_assign, unset, silent, Option.none_or]
  · rintro (⟨name, value, unset, first, unfit⟩ | ⟨name, value, unset, first, unfit⟩)
    · refine ⟨name, value, unset, ?_, unfit⟩
      rw [effective?_eq, unset, first, Option.none_or, Option.some_or]
    · rw [EnvFile.get?_foldl_assign, Option.or_eq_none_iff] at unset
      refine ⟨name, value, unset.1, ?_, unfit⟩
      rw [effective?_eq, unset.1, unset.2, first, Option.none_or, Option.none_or]

theorem loadNode_of_fit {node : Option EnvNode} (fit : ¬ GivesUnfit env (assignmentsOf node env)) :
    loadNode node env = .ok ((assignmentsOf node env).foldl assign env) := by
  match node with
  | some (.file _) => exact EnvFile.run_of_fit fit
  | some .directory => rfl
  | none => rfl

theorem loadNode_of_unfit {node : Option EnvNode} (unfit : GivesUnfit env (assignmentsOf node env)) :
    loadNode node env = .error .crash := by
  match node with
  | some (.file _) => exact EnvFile.run_of_unfit unfit
  | some .directory => exact absurd unfit EnvFile.not_givesUnfit_nil
  | none => exact absurd unfit EnvFile.not_givesUnfit_nil

/-- Files that are not refused complete the variables to the values that count. -/
theorem completeVariables_of_fit (fit : ¬ Refuses directories env) :
    ∃ completed, completeVariables directories env = .ok completed ∧
      completed.get? = effective? directories env := by
  rw [refuses_iff, not_or] at fit
  refine ⟨(commonAssignments directories env).foldl assign
    ((localAssignments directories env).foldl assign env), ?_, ?_⟩
  · rw [completeVariables, loadNode_of_fit fit.1]
    exact loadNode_of_fit fit.2
  · funext name
    rw [EnvFile.get?_foldl_assign, EnvFile.get?_foldl_assign, effective?_eq, Option.or_assoc]

/-- A file that is refused ends all. -/
theorem completeVariables_of_unfit (unfit : Refuses directories env) :
    completeVariables directories env = .error .crash := by
  rw [refuses_iff] at unfit
  by_cases first : GivesUnfit env (localAssignments directories env)
  · rw [completeVariables, loadNode_of_unfit first]
    rfl
  · rw [completeVariables, loadNode_of_fit first]
    exact loadNode_of_unfit (unfit.resolve_left first)

/-! ### Where the places are -/

/-- A variable of the process counts as set if its value is a text. -/
theorem get?_texts_eq_some_iff {name text : String} : process.texts.get? name = some text ↔
    ∃ bytes, process.get? name = some bytes ∧ String.fromUTF8? ⟨bytes.toArray⟩ = some text := by
  have distinct : ((process.entries.filterMap fun p =>
      (String.fromUTF8? ⟨p.2.toArray⟩).map fun value => (p.1, value)).map (·.1)).Nodup := by
    refine List.pairwise_map.mpr (process.ascending.filterMap _ fun p q before p' hp q' hq => ?_)
    obtain ⟨-, -, rfl⟩ := Option.map_eq_some_iff.mp hp
    obtain ⟨-, -, rfl⟩ := Option.map_eq_some_iff.mp hq
    exact String.ne_of_lt before
  rw [ProcessVariables.texts, Dict.get?_eq_some_iff, (Dict.entries_ofList_perm distinct).mem_iff,
    List.mem_filterMap]
  simp only [Dict.get?_eq_some_iff, Option.map_eq_some_iff, Prod.mk.injEq]
  constructor
  · rintro ⟨⟨name, bytes⟩, mem, value, read, rfl, rfl⟩
    exact ⟨bytes, mem, read⟩
  · rintro ⟨bytes, mem, read⟩
    exact ⟨(name, bytes), mem, text, read, rfl, rfl⟩

/-- The local file is the nearest thing of its name, if it is near enough. -/
theorem localFile?_eq_some_iff {node : EnvNode} : localFile? directories = some node ↔
    ∃ nearer d further, directories = nearer ++ d :: further ∧ nearer.length < 7 ∧
      node? ".env.local" d = some node ∧ ∀ d' ∈ nearer, node? ".env.local" d' = none := by
  rw [localFile?, List.findSome?_eq_some_iff]
  constructor
  · rintro ⟨nearer, d, rest, reached, found, absent⟩
    have split := List.take_append_drop localReach directories
    rw [reached, List.append_assoc, List.cons_append] at split
    refine ⟨nearer, d, _, split.symm, ?_, found, absent⟩
    have most : (directories.take localReach).length ≤ 7 := List.length_take_le _ _
    rw [reached, List.length_append, List.length_cons] at most
    omega
  · rintro ⟨nearer, d, further, rfl, near, found, absent⟩
    refine ⟨nearer, d, further.take (6 - nearer.length), ?_, found, absent⟩
    rw [localReach, List.take_append, List.take_of_length_le (by omega)]
    obtain ⟨k, hk⟩ : ∃ k, 7 - nearer.length = k + 1 := ⟨6 - nearer.length, by omega⟩
    rw [hk, List.take_succ_cons, show 6 - nearer.length = k by omega]

/-- The common file is the nearest file of its name. -/
theorem commonFile?_eq_some_iff {node : EnvNode} : commonFile? directories = some node ↔
    ∃ nearer d further, directories = nearer ++ d :: further ∧
      node? ".env" d = some node ∧ node ≠ .directory ∧
        ∀ d' ∈ nearer, ∀ node', node? ".env" d' = some node' → node' = .directory := by
  rw [commonFile?, List.findSome?_eq_some_iff]
  simp only [Option.filter_eq_some_iff, Option.filter_eq_none_iff, commonFileName, ne_eq,
    decide_eq_true_eq, not_not, and_assoc]

/-! ### Reading settings -/

/-- Reading the settings of a process ends as the values that count say. It fails exactly if the
timeout has a value that is not blank and denotes no number of sixty-four bits, and the failure
says so; and it ends with settings exactly if they follow the values. -/
structure FollowsPrecedence (directories : List EnvDirectory) (process : ProcessVariables) :
    Prop where
  fails : (∃ failure, ofProcess directories process = .error failure) ↔
    ∃ text, Gives (effective? directories process.texts) timeoutVariable text ∧
      ∀ n < 2 ^ 64, ¬ Decimal.Denotes (Text.trim text) n
  fault : ∀ failure, ofProcess directories process = .error failure →
    ∃ cause, failure = .fault (.setting (.notAnInteger timeoutVariable cause))
  ends : ∀ s, ofProcess directories process = .ok s ↔
    FollowsValues (effective? directories process.texts) s

/-- Where no file is refused, settings are taken from the values that count. -/
theorem ofProcess_of_fit (fit : ¬ Refuses directories process.texts) :
    ofProcess directories process =
      (ofVariables (effective? directories process.texts)).mapError .fault := by
  obtain ⟨completed, complete, same⟩ := completeVariables_of_fit fit
  rw [ofProcess, ofEnvironment, complete, ← same]
  rfl

theorem ofProcess_of_unfit (unfit : Refuses directories process.texts) :
    ofProcess directories process = .error .crash := by
  rw [ofProcess, ofEnvironment, completeVariables_of_unfit unfit]
  rfl

/-- A text is refused exactly if it denotes no number of sixty-four bits. -/
theorem exists_parseWord_eq_error_iff {text : String} :
    (∃ cause, Decimal.parseWord text = .error cause) ↔
      ∀ n < 2 ^ 64, ¬ Decimal.Denotes text n := by
  constructor
  · rintro ⟨cause, refused⟩ n small denotes
    have whole : (UInt64.ofNat n).toNat = n := UInt64.toNat_ofNat_of_lt' small
    rw [Decimal.parseWord_eq_ok_iff.mpr (whole.symm ▸ denotes)] at refused
    cases refused
  · intro none
    cases read : Decimal.parseWord text with
    | error cause => exact ⟨cause, rfl⟩
    | ok w => exact absurd (Decimal.parseWord_eq_ok_iff.mp read) (none _ w.toNat_lt)

theorem followsPrecedence_of_fit (fit : ¬ Refuses directories process.texts) :
    FollowsPrecedence directories process := by
  have whole := ofProcess_of_fit fit
  have fails (failure : Failure) : ofProcess directories process = .error failure ↔
      ∃ fault, ofVariables (effective? directories process.texts) = .error fault ∧
        failure = .fault fault := by
    rw [whole]
    cases ofVariables (effective? directories process.texts) <;> simp [Except.mapError, eq_comm]
  refine ⟨?_, fun failure failed => ?_, fun s => ?_⟩
  · simp only [fails, ← exists_parseWord_eq_error_iff, ofVariables_eq_error_iff]
    constructor
    · rintro ⟨_, _, ⟨text, cause, gives, refused, rfl⟩, rfl⟩
      exact ⟨text, gives, cause, refused⟩
    · rintro ⟨text, gives, cause, refused⟩
      exact ⟨_, _, ⟨text, cause, gives, refused, rfl⟩, rfl⟩
  · obtain ⟨fault, refused, rfl⟩ := (fails failure).mp failed
    obtain ⟨-, cause, -, -, rfl⟩ := ofVariables_eq_error_iff.mp refused
    exact ⟨cause, rfl⟩
  · rw [whole, ← ofVariables_eq_ok_iff]
    cases ofVariables (effective? directories process.texts) <;> simp [Except.mapError]

/-- Settings of a process follow one order of precedence. A variable of the process counts before
all files if its value is a text; then comes the nearest local file, of any kind and in seven
directories, and then the nearest common file. Reading settings ends as the values that count say,
except where a file is to set a variable, whichever it is, to a value with a zero character; there
it ends without an answer. -/
theorem followsPrecedence_iff (directories : List EnvDirectory) (process : ProcessVariables) :
    (∀ name text, process.texts.get? name = some text ↔
      ∃ bytes, process.get? name = some bytes ∧
        String.fromUTF8? ⟨bytes.toArray⟩ = some text) ∧
    (∀ node, localFile? directories = some node ↔
      ∃ nearer d further, directories = nearer ++ d :: further ∧ nearer.length < 7 ∧
        node? ".env.local" d = some node ∧ ∀ d' ∈ nearer, node? ".env.local" d' = none) ∧
    (∀ node, commonFile? directories = some node ↔
      ∃ nearer d further, directories = nearer ++ d :: further ∧
        node? ".env" d = some node ∧ node ≠ .directory ∧
          ∀ d' ∈ nearer, ∀ node', node? ".env" d' = some node' → node' = .directory) ∧
    (FollowsPrecedence directories process ↔ ¬ Refuses directories process.texts) ∧
    (ofProcess directories process = .error .crash ↔ Refuses directories process.texts) := by
  have crashes : ofProcess directories process = .error .crash ↔
      Refuses directories process.texts := by
    refine ⟨fun crash => ?_, ofProcess_of_unfit⟩
    by_contra fit
    obtain ⟨cause, fault⟩ := (followsPrecedence_of_fit fit).fault _ crash
    cases fault
  refine ⟨fun _ _ => get?_texts_eq_some_iff, fun _ => localFile?_eq_some_iff,
    fun _ => commonFile?_eq_some_iff, ⟨fun follows unfit => ?_, followsPrecedence_of_fit⟩, crashes⟩
  obtain ⟨cause, fault⟩ := follows.fault _ (ofProcess_of_unfit unfit)
  cases fault

/-- A blank path counts although a file has another one, and a language that is no text does not.
The local file two directories above comes before the common file, and its first statement before
the second. -/
theorem followsPrecedence_iff_of_two_files :
    let directories : List EnvDirectory :=
      [[(".env", .directory)],
        [(".env", .file (Text.utf8 "LOC_ARCHIVE_BUSY_TIMEOUT_MS=1\nLOC_ARCHIVE_DB_PATH=b.db\n" ++
          Text.utf8 "LOC_ARCHIVE_DEFAULT_LANGUAGE=' ja'\n"))],
        [(".env.local", .file (Text.utf8 "LOC_ARCHIVE_BUSY_TIMEOUT_MS='+250 '\n" ++
          Text.utf8 "LOC_ARCHIVE_BUSY_TIMEOUT_MS=2\n"))]]
    let process : ProcessVariables :=
      .ofList [("LOC_ARCHIVE_DB_PATH", Text.utf8 "  "), ("LOC_ARCHIVE_DEFAULT_LANGUAGE", [0xFF])]
    ¬ Refuses directories process.texts ∧ FollowsPrecedence directories process ∧
    ofProcess directories process = .ok ⟨"mods_cache.sqlite", 250, "ja"⟩ := by
  intro directories process
  have read : ofProcess directories process = .ok ⟨"mods_cache.sqlite", 250, "ja"⟩ := by
    decide +kernel
  obtain ⟨-, -, -, follows, crashes⟩ := followsPrecedence_iff directories process
  have fit : ¬ Refuses directories process.texts := by
    rw [← crashes, read]
    exact fun crash => by cases crash
  exact ⟨fit, follows.mpr fit, read⟩

/-- A variable that is none of the three ends the reading of settings without an answer, although
no timeout is set. -/
theorem not_followsPrecedence_of_zero :
    let directories : List EnvDirectory := [[(".env", .file (Text.utf8 "OTHER=a\x00b\n"))]]
    let process : ProcessVariables :=
      .ofList [("LOC_ARCHIVE_DEFAULT_LANGUAGE", Text.utf8 "ko")]
    effective? directories process.texts timeoutVariable = none ∧
    ofProcess directories process = .error .crash ∧ ¬ FollowsPrecedence directories process := by
  intro directories process
  have unset : effective? directories process.texts timeoutVariable = none := by decide +kernel
  have crash : ofProcess directories process = .error .crash := by decide +kernel
  refine ⟨unset, crash, fun follows => ?_⟩
  obtain ⟨text, gives, -⟩ := follows.fails.mp ⟨_, crash⟩
  rw [gives.1] at unset
  cases unset

end LocalizationMemory.Settings
