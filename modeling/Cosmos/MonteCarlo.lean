import Cosmos.Yaml.Value

/-! # `montecarlo_import_cloud_artifacts`: dbt artifacts to Monte Carlo

    The Airflow callback checks the Monte Carlo credentials, picks the cloud connection
    id among its keyword arguments, downloads the artifacts of the task's run from object
    storage into a temporary directory, and calls Monte Carlo's dbt importer on them.

    Object storage and Monte Carlo are parameters (`ObjectStore`, `MonteCarloClient`);
    each of their calls may raise. The result is the call made to `import_run`: its
    options and the local files it reads.

    * `firstConnId_ok`: the connection id is the first true one of `aws_conn_id`,
      `gcp_conn_id`, `azure_conn_id`;
    * `firstConnId_of_false`: with none of them true, the `elif not conn_id` branch reads
      `conn_id` before any assignment: `UnboundLocalError`, never its own
      `CosmosValueError`;
    * `downloadArtifact_ok_of_required`: a required artifact that cannot be downloaded
      ends the callback, an optional one is dropped;
    * `montecarloImportCloudArtifacts_ok`: on success, what Monte Carlo receives.
-/

namespace Cosmos

namespace MonteCarlo

/-! ## Section 1: Inputs and services -/

/-- A parameter that is `None` or a `str`. -/
abbrev PyStr := Option String

/-- Python's truth value of `None` or a `str`. -/
def truthy : PyStr → Bool
  | some s => !s.isEmpty
  | none => false

/-- `f"{x}"` of `None` or a `str`. -/
def fmt : PyStr → String
  | some s => s
  | none => "None"

/-- What the callback reads of the Airflow context. -/
structure Context where
  dagId : String
  runId : String
  taskId : String
  tryNumber : Nat

/-- Object storage under a connection id: `ObjectStoragePath(path, conn_id=...).exists()`
    and the content `open("rb").read()` gives. -/
structure ObjectStore where
  objectExists : String → String → Except PyExc Bool
  read : String → String → Except PyExc String

/-- The options the callback passes to `DbtImporter.import_run`; `logsPath` is the
    `logs_path` key, present only when `dbt.log` was downloaded. -/
structure ImportOptions where
  manifestPath : PyStr
  runResultsPath : PyStr
  projectName : PyStr
  jobName : PyStr
  logsPath : Option String
  resourceId : String
  deriving DecidableEq, Repr

/-- Monte Carlo: the uuids of the account's warehouses, as the query of `get_resource_id`
    lists them, and `import_run` on options and the local files it reads (`some` of the
    exception it raises, if any). -/
structure MonteCarloClient where
  warehouses : Except PyExc (List String)
  importRun : ImportOptions → List (String × String) → Option PyExc

/-- The call made to `import_run`: the options and the local files, path and content. -/
structure ImportCall where
  options : ImportOptions
  files : List (String × String)
  deriving DecidableEq, Repr

/-! ## Section 2: The steps of the callback -/

/-- `kwargs[key]`: `KeyError` when the argument was not passed. -/
def getItem (kwargs : List (String × PyStr)) (key : String) : Except PyExc PyStr :=
  match kwargs.lookup key with
  | some v => .ok v
  | none => .error (.keyError key)

/-- The branches `if kwargs[key]: conn_id = kwargs[key]` of the `if`/`elif` chain, tried
    in order. Past the last one, `elif not conn_id` reads `conn_id` before any assignment
    and raises `UnboundLocalError`, so the `CosmosValueError` it guards is never raised. -/
def firstConnId (kwargs : List (String × PyStr)) : List String → Except PyExc String
  | [] => .error (.unboundLocalError "conn_id")
  | key :: rest =>
    (getItem kwargs key).bind fun v => if truthy v then .ok (fmt v) else firstConnId kwargs rest

/-- The keyword arguments the chain reads, in order. -/
def connIdKeys : List String := ["aws_conn_id", "gcp_conn_id", "azure_conn_id"]

/-- The `if`/`elif` chain that sets `conn_id`. -/
def selectConnId (kwargs : List (String × PyStr)) : Except PyExc String :=
  firstConnId kwargs connIdKeys

/-- `cloud_path_prefix`: the task's run in the bucket. -/
def cloudPathPrefix (ctx : Context) : String :=
  ctx.dagId ++ "/" ++ ctx.runId ++ "/" ++ ctx.taskId ++ "/" ++ toString ctx.tryNumber ++ "/target"

/-- The artifacts, in the order of `artifact_files`. -/
def artifactNames : List String := ["manifest.json", "run_results.json", "dbt.log"]

/-- The artifacts whose absence raises. -/
def requiredArtifacts : List String := ["manifest.json", "run_results.json"]

/-- `cloud_path` of an artifact. -/
def cloudPath (bucketName : PyStr) (ctx : Context) (filename : String) : String :=
  fmt bucketName ++ "/" ++ cloudPathPrefix ctx ++ "/" ++ filename

/-- `os.path.join(temp_dir, filename)`. -/
def localPath (tempDir filename : String) : String := tempDir ++ "/" ++ filename

/-- The `try` block of one download: the content written to the local file, or `none`
    when the object does not exist and the artifact is optional. -/
def fetchArtifact (store : ObjectStore) (connId cloud filename : String) :
    Except PyExc (Option String) :=
  (store.objectExists connId cloud).bind fun found =>
    if found then (store.read connId cloud).map some
    else if filename ∈ requiredArtifacts then
      .error (.fileNotFoundError ("Required file " ++ filename ++ " not found at " ++ cloud))
    else .ok none

/-- One turn of the download loop with its `except` clause: the new entry of
    `artifact_files` (the local path, or `None`) and the local file written. A required
    artifact's error propagates; an optional one is marked `None`. -/
def downloadArtifact (store : ObjectStore) (connId : String) (bucketName : PyStr) (ctx : Context)
    (tempDir filename : String) : Except PyExc (PyStr × List (String × String)) :=
  match fetchArtifact store connId (cloudPath bucketName ctx filename) filename with
  | .ok (some c) => .ok (some (localPath tempDir filename), [(localPath tempDir filename, c)])
  | .ok none => .ok (none, [])
  | .error e => if filename ∈ requiredArtifacts then .error e else .ok (none, [])

/-- The download loop over `artifact_files`: its final entries and the files written. -/
def downloadArtifacts (store : ObjectStore) (connId : String) (bucketName : PyStr)
    (ctx : Context) (tempDir : String) :
    List String → Except PyExc (List (String × PyStr) × List (String × String))
  | [] => .ok ([], [])
  | filename :: rest =>
    (downloadArtifact store connId bucketName ctx tempDir filename).bind fun (entry, files) =>
      (downloadArtifacts store connId bucketName ctx tempDir rest).map fun (entries, files') =>
        ((filename, entry) :: entries, files ++ files')

/-- `get_resource_id(client)`: the uuids of the account's warehouses. -/
def getResourceId (mc : MonteCarloClient) : Except PyExc (List String) := mc.warehouses

/-- `import_options` and the `resource_id` choice: the given one when true, else
    `get_resource_id(client)[0]`, an `IndexError` when the account has no warehouse. -/
def importOptions (mc : MonteCarloClient) (artifactFiles : List (String × PyStr))
    (projectName jobName resourceId : PyStr) : Except PyExc ImportOptions :=
  let logsPath := ((artifactFiles.lookup "dbt.log").getD none).filter fun s => truthy (some s)
  let withResource (rid : String) : ImportOptions :=
    ⟨(artifactFiles.lookup "manifest.json").getD none,
      (artifactFiles.lookup "run_results.json").getD none, projectName, jobName, logsPath, rid⟩
  if truthy resourceId then .ok (withResource (fmt resourceId))
  else (getResourceId mc).bind fun ids =>
    match ids with
    | rid :: _ => .ok (withResource rid)
    | [] => .error .indexError

/-- `montecarlo_import_cloud_artifacts(context, mcd_id, mcd_token, project_name, job_name,
    bucket_name, resource_id, **kwargs)`, with the temporary directory `tempDir`: the
    call made to `import_run`, or the exception that ends the callback. -/
def montecarloImportCloudArtifacts (store : ObjectStore) (mc : MonteCarloClient) (ctx : Context)
    (tempDir : String) (mcdId mcdToken projectName jobName bucketName resourceId : PyStr)
    (kwargs : List (String × PyStr)) : Except PyExc ImportCall :=
  if !truthy mcdId || !truthy mcdToken then
    .error (.cosmosValueError "Monte Carlo credentials are required to authenticate with MonteCarlo!")
  else
    (selectConnId kwargs).bind fun connId =>
      (downloadArtifacts store connId bucketName ctx tempDir artifactNames).bind fun (entries, files) =>
        (importOptions mc entries projectName jobName resourceId).bind fun options =>
          match mc.importRun options files with
          | some e => .error e
          | none => .ok ⟨options, files⟩

/-! ## Section 3: What each step does -/

section steps
variable {kwargs : List (String × PyStr)}

/-- The chain ends with the first true argument, after false ones. -/
theorem firstConnId_ok : ∀ {keys : List String} {c : String}, firstConnId kwargs keys = .ok c →
    ∃ pre key rest v, keys = pre ++ key :: rest ∧
      (∀ k ∈ pre, ∃ u, getItem kwargs k = .ok u ∧ truthy u = false) ∧
      getItem kwargs key = .ok v ∧ truthy v = true ∧ fmt v = c
  | [], _, h => by cases h
  | key :: rest, c, h => by
    obtain ⟨v, hv, h⟩ := bind_eq_ok.mp h
    by_cases ht : truthy v
    · rw [if_pos ht] at h
      exact ⟨[], key, rest, v, rfl, by simp, hv, ht, Except.ok.inj h⟩
    · rw [if_neg ht] at h
      obtain ⟨pre, k, rest', u, rfl, hpre, hu⟩ := firstConnId_ok h
      refine ⟨key :: pre, k, rest', u, rfl, List.forall_mem_cons.mpr ⟨⟨v, hv, ?_⟩, hpre⟩, hu⟩
      simpa using ht

/-- With every argument present and false, the chain reaches `elif not conn_id`. -/
theorem firstConnId_of_false : ∀ {keys : List String},
    (∀ k ∈ keys, ∃ u, getItem kwargs k = .ok u ∧ truthy u = false) →
    firstConnId kwargs keys = .error (.unboundLocalError "conn_id")
  | [], _ => rfl
  | key :: rest, h => by
    obtain ⟨⟨u, hu, hf⟩, hrest⟩ := List.forall_mem_cons.mp h
    simp only [firstConnId, hu, Except.bind, hf, Bool.false_eq_true, if_false]
    exact firstConnId_of_false hrest

theorem fetchArtifact_ne_none_of_required {store : ObjectStore} {connId cloud filename : String}
    (hr : filename ∈ requiredArtifacts) : fetchArtifact store connId cloud filename ≠ .ok none := by
  unfold fetchArtifact
  rcases store.objectExists connId cloud with e | _ | _
  · nofun
  · simp [Except.bind, hr]
  · simp only [Except.bind, if_true]
    rcases store.read connId cloud with _ | _ <;> nofun

/-- A required artifact that the loop gets past was downloaded to its local path. -/
theorem downloadArtifact_ok_of_required {store : ObjectStore} {connId : String}
    {bucketName : PyStr} {ctx : Context} {tempDir filename : String}
    {entry : PyStr} {files : List (String × String)} (hr : filename ∈ requiredArtifacts)
    (h : downloadArtifact store connId bucketName ctx tempDir filename = .ok (entry, files)) :
    ∃ c, fetchArtifact store connId (cloudPath bucketName ctx filename) filename = .ok (some c) ∧
      entry = some (localPath tempDir filename) ∧ files = [(localPath tempDir filename, c)] := by
  unfold downloadArtifact at h
  split at h
  · obtain ⟨rfl, rfl⟩ := Prod.mk.inj (Except.ok.inj h)
    exact ⟨_, ‹_›, rfl, rfl⟩
  · exact absurd ‹_› (fetchArtifact_ne_none_of_required hr)
  · rw [if_pos hr] at h; cases h

/-- One turn of the download loop and the rest of it. -/
theorem downloadArtifacts_cons_ok {store : ObjectStore} {connId : String} {bucketName : PyStr}
    {ctx : Context} {tempDir filename : String} {rest : List String}
    {entries : List (String × PyStr)} {files : List (String × String)}
    (h : downloadArtifacts store connId bucketName ctx tempDir (filename :: rest) = .ok (entries, files)) :
    ∃ e fs es fs', downloadArtifact store connId bucketName ctx tempDir filename = .ok (e, fs) ∧
      downloadArtifacts store connId bucketName ctx tempDir rest = .ok (es, fs') ∧
      entries = (filename, e) :: es ∧ files = fs ++ fs' := by
  obtain ⟨⟨e, fs⟩, hA, h⟩ := bind_eq_ok.mp h
  obtain ⟨⟨es, fs'⟩, hB, h⟩ := map_eq_ok.mp h
  obtain ⟨rfl, rfl⟩ := Prod.mk.inj h.symm
  exact ⟨e, fs, es, fs', hA, hB, rfl, rfl⟩

/-- The loop gets past a required artifact only by downloading it: its entry is its local
    path and its content is among the files written. -/
theorem downloadArtifacts_required {store : ObjectStore} {connId : String} {bucketName : PyStr}
    {ctx : Context} {tempDir : String} : ∀ {names : List String} {entries : List (String × PyStr)}
    {files : List (String × String)},
    downloadArtifacts store connId bucketName ctx tempDir names = .ok (entries, files) →
    ∀ filename ∈ names, filename ∈ requiredArtifacts → ∃ c,
      fetchArtifact store connId (cloudPath bucketName ctx filename) filename = .ok (some c) ∧
      entries.lookup filename = some (some (localPath tempDir filename)) ∧
      (localPath tempDir filename, c) ∈ files
  | [], _, _, _, _, hm, _ => absurd hm (List.not_mem_nil _)
  | g :: rest, _, _, h, filename, hm, hr => by
    obtain ⟨e, fs, es, fs', hA, hB, rfl, rfl⟩ := downloadArtifacts_cons_ok h
    by_cases hg : filename = g
    · subst hg
      obtain ⟨c, hc, rfl, rfl⟩ := downloadArtifact_ok_of_required hr hA
      exact ⟨c, hc, by simp [lookup_cons_ite], by simp⟩
    · obtain ⟨c, hc, hl, hf⟩ := downloadArtifacts_required hB filename
        ((List.mem_cons.mp hm).resolve_left hg) hr
      exact ⟨c, hc, by rw [lookup_cons_ite, if_neg hg, hl], List.mem_append_right _ hf⟩

/-- What `import_run` is given: the paths the downloads recorded, the names as passed, and the
    resource id passed or, when it is empty, the account's first warehouse. -/
theorem importOptions_eq_ok {mc : MonteCarloClient} {entries : List (String × PyStr)}
    {projectName jobName resourceId : PyStr} {o : ImportOptions}
    (h : importOptions mc entries projectName jobName resourceId = .ok o) :
    o.manifestPath = (entries.lookup "manifest.json").getD none ∧
    o.runResultsPath = (entries.lookup "run_results.json").getD none ∧
    o.projectName = projectName ∧ o.jobName = jobName ∧
    (truthy resourceId = true → o.resourceId = fmt resourceId) ∧
    (truthy resourceId = false → ∃ ids, getResourceId mc = .ok (o.resourceId :: ids)) := by
  unfold importOptions at h
  split at h
  · cases h
    exact ⟨rfl, rfl, rfl, rfl, fun _ => rfl, fun h => absurd h (by simp_all)⟩
  · rename_i hres
    obtain ⟨ids, hids, h⟩ := bind_eq_ok.mp h
    split at h
    · cases h
      exact ⟨rfl, rfl, rfl, rfl, fun h => absurd h hres, fun _ => ⟨_, hids⟩⟩
    · cases h

end steps

/-! ## Section 4: The callback -/

section callback
variable {store : ObjectStore} {mc : MonteCarloClient} {ctx : Context} {tempDir : String}
  {mcdId mcdToken projectName jobName bucketName resourceId : PyStr}
  {kwargs : List (String × PyStr)}

/-- With the credentials given and every cloud connection id passed as `None` or empty,
    the callback raises `UnboundLocalError` for `conn_id`, not the `CosmosValueError`
    "Connection ID to the cloud provider is required" its code means to raise. -/
theorem montecarloImportCloudArtifacts_no_conn_id (hid : truthy mcdId = true)
    (htoken : truthy mcdToken = true)
    (hfalse : ∀ k ∈ connIdKeys, ∃ u, getItem kwargs k = .ok u ∧ truthy u = false) :
    montecarloImportCloudArtifacts store mc ctx tempDir mcdId mcdToken projectName jobName
      bucketName resourceId kwargs = .error (.unboundLocalError "conn_id") := by
  simp [montecarloImportCloudArtifacts, hid, htoken, selectConnId, firstConnId_of_false hfalse,
    Except.bind]

/-- A store that holds every object, whose content is its path's. -/
def demoStore : ObjectStore := ⟨fun _ _ => .ok true, fun _ path => .ok ("content of " ++ path)⟩

/-- An account with one warehouse that takes every import. -/
def demoClient : MonteCarloClient := ⟨.ok ["warehouse-1"], fun _ _ => none⟩

/-- A first try of the task `run` in the run `manual__1` of the DAG `jaffle_shop`. -/
def demoContext : Context := ⟨"jaffle_shop", "manual__1", "run", 1⟩

/-- What a successful callback sent: the credentials were given, the connection id is the
    first true one, both required artifacts were downloaded from the task's run to the
    temporary directory and passed as `manifest_path` and `run_results_path`, the project
    and job names went through, and the resource id is the given one or the account's
    first warehouse. -/
theorem montecarloImportCloudArtifacts_ok {call : ImportCall}
    (h : montecarloImportCloudArtifacts store mc ctx tempDir mcdId mcdToken projectName jobName
      bucketName resourceId kwargs = .ok call) :
    truthy mcdId = true ∧ truthy mcdToken = true ∧
    ∃ connId, selectConnId kwargs = .ok connId ∧
      (∀ filename ∈ requiredArtifacts, ∃ c,
        fetchArtifact store connId (cloudPath bucketName ctx filename) filename = .ok (some c) ∧
        (localPath tempDir filename, c) ∈ call.files) ∧
      call.options.manifestPath = some (localPath tempDir "manifest.json") ∧
      call.options.runResultsPath = some (localPath tempDir "run_results.json") ∧
      call.options.projectName = projectName ∧ call.options.jobName = jobName ∧
      (truthy resourceId = true → call.options.resourceId = fmt resourceId) ∧
      (truthy resourceId = false → ∃ ids, getResourceId mc = .ok (call.options.resourceId :: ids)) ∧
      mc.importRun call.options call.files = none := by
  unfold montecarloImportCloudArtifacts at h
  split at h
  · cases h
  rename_i hcred
  simp only [Bool.or_eq_true, Bool.not_eq_true', not_or, Bool.not_eq_false] at hcred
  obtain ⟨connId, hconn, h⟩ := bind_eq_ok.mp h
  obtain ⟨⟨entries, files⟩, hdl, h⟩ := bind_eq_ok.mp h
  dsimp only at h
  obtain ⟨options, hopt, h⟩ := bind_eq_ok.mp h
  have hreq := downloadArtifacts_required hdl
  obtain ⟨cm, hm, hlm, -⟩ := hreq "manifest.json" (by decide) (by decide)
  obtain ⟨cr, hr, hlr, -⟩ := hreq "run_results.json" (by decide) (by decide)
  -- the import
  split at h
  · cases h
  rename_i hrun
  cases h
  refine ⟨hcred.1, hcred.2, connId, hconn, fun filename hf => ?_, ?_⟩
  · obtain ⟨c, hc, -, hfile⟩ :=
      hreq filename ((by decide : ∀ f ∈ requiredArtifacts, f ∈ artifactNames) filename hf) hf
    exact ⟨c, hc, hfile⟩
  · obtain ⟨hmp, hrp, hpn, hjn, hr₁, hr₂⟩ := importOptions_eq_ok hopt
    exact ⟨by simp [hmp, hlm], by simp [hrp, hlr], hpn, hjn, hr₁, hr₂, hrun⟩

/-- The call of a successful run: both required artifacts and the log, the first
    warehouse as the resource. -/
def demoCall : ImportCall :=
  ⟨⟨some "/tmp/mc/manifest.json", some "/tmp/mc/run_results.json", some "jaffle_shop", some "daily",
      some "/tmp/mc/dbt.log", "warehouse-1"⟩,
    [("/tmp/mc/manifest.json", "content of bucket/jaffle_shop/manual__1/run/1/target/manifest.json"),
      ("/tmp/mc/run_results.json",
        "content of bucket/jaffle_shop/manual__1/run/1/target/run_results.json"),
      ("/tmp/mc/dbt.log", "content of bucket/jaffle_shop/manual__1/run/1/target/dbt.log")]⟩

theorem montecarloImportCloudArtifacts_ok_demo :
    truthy (some "id") = true ∧ truthy (some "token") = true ∧
    ∃ connId, selectConnId [("aws_conn_id", some "aws_default")] = .ok connId ∧
      (∀ filename ∈ requiredArtifacts, ∃ c,
        fetchArtifact demoStore connId (cloudPath (some "bucket") demoContext filename) filename =
          .ok (some c) ∧ (localPath "/tmp/mc" filename, c) ∈ demoCall.files) ∧
      demoCall.options.manifestPath = some (localPath "/tmp/mc" "manifest.json") ∧
      demoCall.options.runResultsPath = some (localPath "/tmp/mc" "run_results.json") ∧
      demoCall.options.projectName = some "jaffle_shop" ∧ demoCall.options.jobName = some "daily" ∧
      (truthy none = true → demoCall.options.resourceId = fmt none) ∧
      (truthy none = false → ∃ ids, getResourceId demoClient = .ok (demoCall.options.resourceId :: ids)) ∧
      demoClient.importRun demoCall.options demoCall.files = none :=
  @montecarloImportCloudArtifacts_ok demoStore demoClient demoContext "/tmp/mc" (some "id")
    (some "token") (some "jaffle_shop") (some "daily") (some "bucket") none
    [("aws_conn_id", some "aws_default")] demoCall rfl

end callback

end MonteCarlo

end Cosmos
