import Cosmos.Fs.Model
import Cosmos.Config.Refinement

/-! # The project helpers on the file system

    `create_symlinks(project_path, tmp_dir, ignore_dbt_packages)` fills a temporary
    directory with a link to each entry of the project but the ones dbt writes (and the
    packages folder, when asked); `apply_project_keys_to_dbt_project_yml(project_path,
    project_keys)` loads the project's `dbt_project.yml`, applies the keys and writes it
    back. Both go through the file system of `Cosmos.Fs.Model`, so a write to the
    temporary directory's `dbt_project.yml` goes where its link leads.

    PyYAML is a parameter, `YamlCodec`: `yaml.safe_load` of a file's content gives the
    objects of `Cosmos.Config.Heap`, and `yaml.dump` turns objects into content.

    * `linkChildren_ok`: the loop of `create_symlinks` links exactly the listed names
      that are not ignored;
    * `applyProjectKeys_of_file`: what `apply_project_keys_to_dbt_project_yml` does once
      its `dbt_project.yml` leads to a file: the write goes to that file.
-/

namespace Cosmos

/-! ## Section 1: Names and PyYAML -/

/-- `DBT_LOG_DIR_NAME` of `cosmos.constants`, a module not among the sources; its value
    is taken to be `logs`, the directory dbt writes its logs to. -/
def dbtLogDirName : String := "logs"

/-- `DBT_TARGET_DIR_NAME` of `cosmos.constants`, a module not among the sources; its value
    is taken to be `target`, dbt's default target directory. -/
def dbtTargetDirName : String := "target"

/-- `PACKAGE_LOCKFILE_YML` of `cosmos.constants`, a module not among the sources; its value
    is taken to be `package-lock.yml`, the lock file `dbt deps` writes. -/
def packageLockfileYml : String := "package-lock.yml"

/-- `DBT_PROJECT_FILENAME` of `cosmos.constants`, a module not among the sources; the tests
    write the project file as `dbt_project.yml`. -/
def dbtProjectFilename : String := "dbt_project.yml"

/-- `DBT_DEFAULT_PACKAGES_FOLDER` of `cosmos.constants`, a module not among the sources; the
    docstring of `get_dbt_packages_subpath` gives dbt's default `dbt_packages`. -/
def dbtDefaultPackagesFolder : String := "dbt_packages"

/-- What the helpers borrow from PyYAML: `yaml.safe_load` of a file's content, giving the
    loaded object in a heap of its own or raising (`YAMLError` for a malformed document),
    and `yaml.dump` of an object. -/
structure YamlCodec (σ : Type) where
  safeLoad : σ → Except PyExc (Heap × Ref)
  dump : Heap → Ref → σ

/-- A Python `str`, as a reference. -/
def strRef (s : String) : Ref := .val (.scalar (.str s)) rfl

/-- `obj.get(key, default)` on a loaded object: `AttributeError` on anything but a dict. -/
def Heap.get (h : Heap) (r : Ref) (key : String) (default : Ref) : Except PyExc Ref :=
  match r with
  | .obj a => .ok (((h.objs a).lookup (.str key)).getD default)
  | .val _ _ => .error .attributeError

variable {σ : Type}

/-! ## Section 2: `get_dbt_packages_subpath` and `create_symlinks` -/

/-- `get_dbt_packages_subpath(source_folder)`: the project's `packages-install-path`, as
    loaded (any value), or `dbt_packages` when the project file is missing or is no
    YAML. -/
def getDbtPackagesSubpath (yaml : YamlCodec σ) (fs : FS σ) (sourceFolder : Path) :
    Except PyExc Ref :=
  let dbtProjectYmlPath := sourceFolder ++ [dbtProjectFilename]
  if fs.exists dbtProjectYmlPath then
    (fs.readFile dbtProjectYmlPath).bind fun content =>
      match yaml.safeLoad content with
      | .error (.yamlError _) => .ok (strRef dbtDefaultPackagesFolder)
      | .error exc => .error exc
      | .ok (h, r) => h.get r "packages-install-path" (strRef dbtDefaultPackagesFolder)
  else .ok (strRef dbtDefaultPackagesFolder)

/-- `ignore_paths` of `create_symlinks`, with the packages subpath appended when
    `ignore_dbt_packages` holds. -/
def ignorePaths (yaml : YamlCodec σ) (fs : FS σ) (projectPath : Path)
    (ignoreDbtPackages : Bool) : Except PyExc (List Ref) :=
  let base := [strRef dbtLogDirName, strRef dbtTargetDirName, strRef packageLockfileYml,
    strRef "profiles.yml"]
  if ignoreDbtPackages then (getDbtPackagesSubpath yaml fs projectPath).map (base ++ [·])
  else .ok base

/-- The loop of `create_symlinks` over the listed names: `child_name not in
    ignore_paths` is Python's `==` against each, so a name is ignored only by a `str`
    equal to it. -/
def linkChildren (projectPath tmpDir : Path) (ignore : List Ref) :
    List String → FS σ → Except PyExc (FS σ)
  | [], fs => .ok fs
  | childName :: rest, fs =>
    if strRef childName ∈ ignore then linkChildren projectPath tmpDir ignore rest fs
    else (fs.symlink (projectPath ++ [childName]) (tmpDir ++ [childName])).bind
      (linkChildren projectPath tmpDir ignore rest)

/-- `create_symlinks(project_path, tmp_dir, ignore_dbt_packages)`. -/
def createSymlinks (yaml : YamlCodec σ) (fs : FS σ) (projectPath tmpDir : Path)
    (ignoreDbtPackages : Bool) : Except PyExc (FS σ) :=
  (ignorePaths yaml fs projectPath ignoreDbtPackages).bind fun ignore =>
    (fs.listdir projectPath).bind fun names => linkChildren projectPath tmpDir ignore names fs

/-! ## Section 3: `copy_dbt_packages` -/

/-- The names of a relative path as `pathlib` parses it: empty names (from doubled or
    trailing separators) and `.` are dropped. -/
def pathParts (s : String) : List String :=
  ((s.toList.splitOn '/').map String.mk).filter fun n => n != "" && n != "."

/-- `base / s` with `pathlib`: an absolute `s` replaces `base`. -/
def joinPath (base : Path) (s : String) : Path :=
  if s.toList.head? = some '/' then pathParts s else base ++ pathParts s

/-- The copies `copy_dbt_packages(source_folder, target_folder)` makes, from
    `source_folder / relative_path` to `target_folder / relative_path`, for the packages
    subpath and the lock file; joining a subpath that is no `str` raises `TypeError`.
    The copying itself is `copyDbtPackages` in `Cosmos.Dbt.TmpProject`. -/
def copyDbtPackagesPaths (subpath : Ref) (sourceFolder targetFolder : Path) :
    Except PyExc (List (Path × Path)) :=
  match subpath with
  | .val (.scalar (.str s)) _ =>
    .ok ([s, packageLockfileYml].map fun rel => (joinPath sourceFolder rel, joinPath targetFolder rel))
  | _ => .error .typeError

/-! ## Section 4: `apply_project_keys_to_dbt_project_yml` -/

/-- `yaml.safe_load(f) or {}`: a false value gives a fresh `{}`. -/
def orEmptyDict (h : Heap) : Ref → Heap × Ref
  | .obj a => if (h.objs a).isEmpty then (h.alloc [], .obj h.next) else (h, .obj a)
  | .val v hv => if v.truthy then (h, .val v hv) else (h.alloc [], .obj h.next)

/-- The message of the `FileNotFoundError` for a missing project file. -/
def notFoundMessage (p : Path) : String := "dbt_project.yml not found at " ++ pathStr p

/-- What `apply_project_keys_to_dbt_project_yml` makes of the content of the project file
    between reading it and writing it back: `yaml.safe_load(f) or {}`, the loop of
    `_set_nested_key` over `project_keys`, and `yaml.dump`; or the exception raised on the
    way. A config that loads as a true value other than a dict makes the first
    `_set_nested_key` raise `TypeError` (`in` or item assignment on a `str`, list, number
    or date); an exception a conversion raises ends the loop and propagates. -/
def applyProjectKeysToContent (yaml : YamlCodec σ) (py : PyParsers) (projectKeys : ProjectKeys)
    (content : σ) : Except PyExc σ :=
  (yaml.safeLoad content).bind fun loaded =>
    match orEmptyDict loaded.1 loaded.2 with
    | (h, .obj root) =>
      let run := applyKeysLoop py projectKeys.items h root
      match run.raised with
      | some exc => .error exc
      | none => .ok (yaml.dump run.heap (.obj root))
    | (_, .val _ _) => .error .typeError

/-- `apply_project_keys_to_dbt_project_yml(project_path, project_keys)`: nothing for empty
    keys, `FileNotFoundError` for a missing project file, else the file is read, its
    content rewritten, and the result written back through the same path. -/
def applyProjectKeysToDbtProjectYml (yaml : YamlCodec σ) (py : PyParsers) (fs : FS σ)
    (projectPath : Path) (projectKeys : ProjectKeys) : Except PyExc (FS σ) :=
  if projectKeys.items.isEmpty then .ok fs
  else
    let dbtProjectYmlPath := projectPath ++ [dbtProjectFilename]
    if !fs.exists dbtProjectYmlPath then .error (.fileNotFoundError (notFoundMessage dbtProjectYmlPath))
    else
      (fs.readFile dbtProjectYmlPath).bind fun content =>
        (applyProjectKeysToContent yaml py projectKeys content).bind (fs.writeFile dbtProjectYmlPath)

/-! ## Section 5: What `create_symlinks` links -/

section links
variable {S T : Path} {ignore : List Ref}

/-- The loop of `create_symlinks` into a directory `T` with no link on its path and free
    names: each listed name that is not ignored gets a link to its entry of `S`, and no
    other path changes. -/
theorem linkChildren_ok : ∀ (names : List String) (fs : FS σ), names.Nodup → NoLinks fs T →
    fs.nodeAt T = some .dir → (∀ n ∈ names, fs.lookup (T ++ [n]) = none) →
    ∃ fs', linkChildren S T ignore names fs = .ok fs' ∧
      (∀ n ∈ names, fs'.lookup (T ++ [n]) =
        if strRef n ∈ ignore then none else some (.symlink (S ++ [n]))) ∧
      ∀ p, (∀ n ∈ names, p ≠ T ++ [n]) → fs'.lookup p = fs.lookup p
  | [], fs, _, _, _, _ => ⟨fs, rfl, by simp, fun _ _ => rfl⟩
  | n :: rest, fs, hnd, hT, hdir, hfree => by
    obtain ⟨hn, hnd⟩ := List.nodup_cons.mp hnd
    have hfree' := List.forall_mem_cons.mp hfree
    have hne : ∀ m ∈ rest, T ++ [n] ≠ T ++ [m] := fun m hm =>
      append_singleton_ne fun e => hn (e ▸ hm)
    by_cases hig : strRef n ∈ ignore
    · -- an ignored name: the loop goes on with the same file system
      obtain ⟨fs', hrun, hlinks, hkeep⟩ := linkChildren_ok rest fs hnd hT hdir hfree'.2
      refine ⟨fs', by rw [linkChildren, if_pos hig, hrun], List.forall_mem_cons.mpr ⟨?_, hlinks⟩,
        fun p hp => hkeep p fun m hm => hp m (List.mem_cons_of_mem _ hm)⟩
      rw [if_pos hig, hkeep _ hne, hfree'.1]
    · -- a linked name: `os.symlink` succeeds, and the rest of the loop keeps its link
      set fs₁ := fs.put (T ++ [n]) (.symlink (S ++ [n]))
      have hdir₁ : fs₁.nodeAt T = some .dir := by
        rw [FS.nodeAt_put_of_ne fun e => by simpa using congrArg List.length e, hdir]
      obtain ⟨fs', hrun, hlinks, hkeep⟩ := linkChildren_ok rest fs₁ hnd
        (hT.put (not_prefix_append_singleton T n) _) hdir₁ fun m hm => by
          rw [FS.lookup_put, if_neg (hne m hm).symm, hfree'.2 m hm]
      refine ⟨fs', by rw [linkChildren, if_neg hig, FS.symlink_ok _ hT hdir hfree'.1]; exact hrun,
        List.forall_mem_cons.mpr ⟨?_, hlinks⟩, fun p hp => ?_⟩
      · rw [if_neg hig, hkeep _ hne, FS.lookup_put, if_pos rfl]
      · rw [hkeep p fun m hm => hp m (List.mem_cons_of_mem _ hm), FS.lookup_put,
          if_neg (hp n (List.mem_cons_self _ _))]

/-- `create_symlinks` from a project directory `S` into an empty directory `T`, both with
    no link on their paths: each entry of `S` whose name is not ignored gets a link in
    `T`, and nothing else changes. -/
theorem createSymlinks_ok (yaml : YamlCodec σ) (fs : FS σ) (flag : Bool)
    (hS : NoLinks fs S) (hSdir : fs.nodeAt S = some .dir) (hT : NoLinks fs T)
    (hTdir : fs.nodeAt T = some .dir) (hempty : ∀ n, fs.lookup (T ++ [n]) = none)
    (hign : ignorePaths yaml fs S flag = .ok ignore) :
    ∃ fs', createSymlinks yaml fs S T flag = .ok fs' ∧
      (∀ n, fs'.lookup (T ++ [n]) =
        if S ++ [n] ∈ fs.entries.map Prod.fst ∧ strRef n ∉ ignore then some (.symlink (S ++ [n]))
        else none) ∧
      ∀ p, (∀ n, p ≠ T ++ [n]) → fs'.lookup p = fs.lookup p := by
  obtain ⟨fs', hrun, hlinks, hkeep⟩ := @linkChildren_ok _ S _ ignore _ fs
    (listing_nodup S) hT hTdir fun n _ => hempty n
  refine ⟨fs', by simp only [createSymlinks, hign, FS.listdir_of_noLinks hS hSdir]; exact hrun,
    fun n => ?_, fun p hp => hkeep p fun n _ => hp n⟩
  by_cases hn : n ∈ fs.entries.filterMap fun e => childName S e.1
  · by_cases hig : strRef n ∈ ignore <;> simp [hlinks n hn, hig, mem_listing.mp hn]
  · rw [hkeep _ fun m hm e => hn (by rwa [List.singleton_inj.mp (List.append_cancel_left e)]),
      hempty, if_neg fun h => hn (mem_listing.mpr h.1)]

/-- With `ignore_dbt_packages`, `create_symlinks` links each entry of the project whose
    name is none of `logs`, `target`, `package-lock.yml`, `profiles.yml` and is not the
    loaded `packages-install-path` itself: the subpath is compared as a `str`, with no
    path normalisation. -/
theorem createSymlinks_ignoring_packages (yaml : YamlCodec σ) (fs : FS σ) {sub : Ref}
    (hS : NoLinks fs S) (hSdir : fs.nodeAt S = some .dir) (hT : NoLinks fs T)
    (hTdir : fs.nodeAt T = some .dir) (hempty : ∀ n, fs.lookup (T ++ [n]) = none)
    (hsub : getDbtPackagesSubpath yaml fs S = .ok sub) :
    ∃ fs', createSymlinks yaml fs S T true = .ok fs' ∧
      ∀ n, fs'.lookup (T ++ [n]) =
        if S ++ [n] ∈ fs.entries.map Prod.fst ∧
          n ∉ [dbtLogDirName, dbtTargetDirName, packageLockfileYml, "profiles.yml"] ∧ strRef n ≠ sub
        then some (.symlink (S ++ [n])) else none := by
  have hign : ignorePaths yaml fs S true = .ok ([strRef dbtLogDirName, strRef dbtTargetDirName,
      strRef packageLockfileYml, strRef "profiles.yml"] ++ [sub]) := by
    simp [ignorePaths, hsub, Except.map]
  obtain ⟨fs', hrun, hlinks, -⟩ := createSymlinks_ok yaml fs true hS hSdir hT hTdir hempty hign
  refine ⟨fs', hrun, fun n => (hlinks n).trans (if_congr (and_congr_right' ?_) rfl rfl)⟩
  rw [List.mem_append, List.mem_singleton, not_or]
  exact and_congr (by simp [strRef]) Iff.rfl

/-- What `yaml.safe_load` gives, as the content of a file: a file holds the objects it
    loads as, and `yaml.dump` keeps them. -/
def graphCodec : YamlCodec (Heap × Ref) := ⟨fun c => .ok c, fun h r => (h, r)⟩

/-- A project whose `dbt_project.yml` sets `packages-install-path: dbt_packages/`. -/
def slashedPackagesProject : FS (Heap × Ref) :=
  ⟨[(["project"], .dir),
    (["project", "dbt_project.yml"], .file (⟨fun a => if a = 0 then
      [(.str "name", strRef "jaffle_shop"), (.str "packages-install-path", strRef "dbt_packages/")]
      else [], 1⟩, .obj 0) true),
    (["project", "dbt_packages"], .dir), (["tmp"], .dir)], by decide⟩

theorem createSymlinks_ignoring_slashed_packages :
    ∃ fs', createSymlinks graphCodec slashedPackagesProject ["project"] ["tmp"] true = .ok fs' ∧
      ∀ n, fs'.lookup (["tmp"] ++ [n]) =
        if ["project"] ++ [n] ∈ slashedPackagesProject.entries.map Prod.fst ∧
          n ∉ [dbtLogDirName, dbtTargetDirName, packageLockfileYml, "profiles.yml"] ∧
          strRef n ≠ strRef "dbt_packages/"
        then some (.symlink (["project"] ++ [n])) else none :=
  createSymlinks_ignoring_packages graphCodec slashedPackagesProject (by decide) rfl (by decide) rfl
    (fun n => by simp [FS.lookup, slashedPackagesProject, lookup_cons_ite]) rfl

/-- With `packages-install-path: dbt_packages/`, `create_symlinks(project, tmp,
    ignore_dbt_packages=True)` links `tmp/dbt_packages` to the packages folder, the one
    `copy_dbt_packages` reaches as `project / "dbt_packages/"`. -/
theorem createSymlinks_links_slashed_packages :
    getDbtPackagesSubpath graphCodec slashedPackagesProject ["project"] = .ok (strRef "dbt_packages/") ∧
    (createSymlinks graphCodec slashedPackagesProject ["project"] ["tmp"] true).map
      (·.lookup ["tmp", "dbt_packages"]) = .ok (some (.symlink ["project", "dbt_packages"])) ∧
    copyDbtPackagesPaths (strRef "dbt_packages/") ["project"] ["tmp"] =
      .ok [(["project", "dbt_packages"], ["tmp", "dbt_packages"]),
        (["project", "package-lock.yml"], ["tmp", "package-lock.yml"])] :=
  ⟨rfl, rfl, rfl⟩

end links

/-! ## Section 6: Where the project keys are written -/

/-- Once the project file leads to a file, `apply_project_keys_to_dbt_project_yml` loads
    that file's content and writes the result to that same file, or raises
    `PermissionError` naming the project path when the file's write bit is clear. -/
theorem applyProjectKeys_of_file (yaml : YamlCodec σ) (py : PyParsers) (fs : FS σ) (P : Path)
    (keys : ProjectKeys) {r : Path} {c : σ} {w : Bool}
    (hres : fs.resolve maxLinks (P ++ [dbtProjectFilename]) = some r)
    (hc : fs.nodeAt r = some (.file c w)) :
    applyProjectKeysToDbtProjectYml yaml py fs P keys =
      if keys.items.isEmpty then .ok fs
      else (applyProjectKeysToContent yaml py keys c).bind fun c' =>
        if w then .ok (fs.put r (.file c' true))
        else .error (.permissionError (pathStr (P ++ [dbtProjectFilename]))) := by
  have hwrite : fs.writeFile (P ++ [dbtProjectFilename]) = fun c' =>
      if w then .ok (fs.put r (.file c' true))
      else .error (.permissionError (pathStr (P ++ [dbtProjectFilename]))) :=
    funext (FS.writeFile_of_file hres hc)
  simp only [applyProjectKeysToDbtProjectYml, FS.exists_of_resolve hres hc,
    FS.readFile_of_file hres hc, hwrite]
  rfl

/-- The rewritten content, once the config loads as a dict object: the dump of the loop's
    objects, or the exception a conversion raised. -/
theorem applyProjectKeysToContent_of_obj (yaml : YamlCodec σ) (py : PyParsers) (keys : ProjectKeys)
    {c : σ} {h h₁ : Heap} {ref : Ref} {root : Nat} (hload : yaml.safeLoad c = .ok (h, ref))
    (hroot : orEmptyDict h ref = (h₁, .obj root)) :
    applyProjectKeysToContent yaml py keys c =
      match (applyKeysLoop py keys.items h₁ root).raised with
      | some exc => .error exc
      | none => .ok (yaml.dump (applyKeysLoop py keys.items h₁ root).heap (.obj root)) := by
  simp only [applyProjectKeysToContent, hload, Except.bind, hroot]

/-- When a value's conversion raises, `apply_project_keys_to_dbt_project_yml` raises that
    exception and writes nothing. -/
theorem applyProjectKeys_raises (yaml : YamlCodec σ) (py : PyParsers) (fs : FS σ) (P : Path)
    (keys : ProjectKeys) {r : Path} {c : σ} {w : Bool} {h h₁ : Heap} {ref : Ref} {root : Nat}
    {e : PyExc} (hres : fs.resolve maxLinks (P ++ [dbtProjectFilename]) = some r)
    (hc : fs.nodeAt r = some (.file c w)) (hload : yaml.safeLoad c = .ok (h, ref))
    (hroot : orEmptyDict h ref = (h₁, .obj root)) (hne : keys.items ≠ [])
    (hraise : (applyKeysLoop py keys.items h₁ root).raised = some e) :
    applyProjectKeysToDbtProjectYml yaml py fs P keys = .error e := by
  rw [applyProjectKeys_of_file yaml py fs P keys hres hc, if_neg (by simpa using hne),
    applyProjectKeysToContent_of_obj yaml py keys hload hroot, hraise]
  rfl

section writeThrough
variable {S T : Path} {ignore : List Ref}

end writeThrough

/-- The project of the operator test: `{"name": "original_project", "version": "1.0.0",
    "profile": "default"}`. -/
def operatorProject : FS (Heap × Ref) :=
  ⟨[(["project"], .dir),
    (["project", "dbt_project.yml"], .file (⟨fun a => if a = 0 then
      [(.str "name", strRef "original_project"), (.str "version", strRef "1.0.0"),
        (.str "profile", strRef "default")] else [], 1⟩, .obj 0) true),
    (["tmp"], .dir)], by decide⟩

/-- The project keys of the operator test. -/
def operatorKeys : ProjectKeys :=
  ⟨[("name", "test_project"), ("models.my_project.materialized", "table")], by decide⟩

/-- The name a loaded project file gives. -/
def projectName (c : Heap × Ref) : Option Ref := c.1.lookup c.2 [.str "name"]

/-- `create_symlinks(project, tmp, False)` and then `apply_project_keys_to_dbt_project_yml(
    tmp, {"name": "test_project", ...})` rewrite the project's own `dbt_project.yml`. -/
theorem createSymlinks_then_apply_rewrites_project :
    (operatorProject.readFile ["project", "dbt_project.yml"]).map projectName =
      .ok (some (strRef "original_project")) ∧
    (((createSymlinks graphCodec operatorProject ["project"] ["tmp"] false).bind fun fs =>
      applyProjectKeysToDbtProjectYml graphCodec .rejectAll fs ["tmp"] operatorKeys).bind fun fs =>
        (fs.readFile ["project", "dbt_project.yml"]).map projectName) =
      .ok (some (strRef "test_project")) :=
  ⟨rfl, rfl⟩

end Cosmos
