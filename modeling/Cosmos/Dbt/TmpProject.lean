import Cosmos.Dbt.Project
import Cosmos.Fs.Shutil

/-! # The temporary project

    The operators run dbt in a temporary directory that `create_symlinks` fills with links
    to the entries of the project. The other helpers of `cosmos/dbt/project.py` work on
    it: `copy_dbt_packages` copies the packages folder and the lock file in,
    `copy_manifest_file_if_exists` copies a manifest into its `target` folder,
    `has_non_empty_dependencies_file` looks for packages to install, and
    `change_working_directory` moves into a directory for the run.

    Over `create_symlinks(S, T, ...)` into an empty `T`:
    * `createSymlinks_then_copyDbtPackages`: with the packages folder ignored under its own
      name, `copy_dbt_packages(S, T)` gives `T` its own copy of the folder and of the lock
      file, and changes nothing outside `T`;
    * `createSymlinks_then_copyDbtPackages_raises`: when the packages path names the folder
      only up to `pathlib`'s normalisation (`dbt_packages/`), `T` links the folder and
      `copy_dbt_packages` copies it onto itself, which raises;
    * `createSymlinks_then_copyManifest`: `target` is never linked, so the manifest, and
      dbt's partial parse file, land in `T`'s own `target` folder;
    * `createSymlinks_hasNonEmptyDependenciesFile`: `T` has packages to install exactly
      when `S` has.

    `changeWorkingDirectory_restores` and `changeWorkingDirectory_raises` say when
    `change_working_directory` returns to the directory of entry and when its `finally`
    block raises in place of the body.
-/

namespace Cosmos

variable {σ : Type}

/-! ## Section 1: Names -/

/-- Modelled from the docstring of `copy_manifest_file_if_exists`: `cosmos.constants` is not
    among the sources. -/
def dbtManifestFileName : String := "manifest.json"

/-- Modelled from the docstring of `get_partial_parse_path`. -/
def dbtPartialParseFileName : String := "partial_parse.msgpack"

/-- Modelled from the docstring of `has_non_empty_dependencies_file`, in its order. -/
def dbtDependenciesFileNames : List String := ["dependencies.yml", "packages.yml"]

/-! ## Section 2: The helpers -/

/-- `has_non_empty_dependencies_file(project_path)`; `stSize` is the `st_size` of what
    `stat` finds. -/
def hasNonEmptyDependenciesFile (stSize : Node σ → Nat) (fs : FS σ) (projectPath : Path) : Bool :=
  dbtDependenciesFileNames.any fun filename =>
    match fs.stat (projectPath ++ [filename]) with
    | some n => decide (0 < stSize n)
    | none => false

/-- The loop of `copy_dbt_packages` over its `(src_path, dst_path)` pairs: make the parent
    of `dst_path`, then copy the tree or the file. -/
def copyPackagePaths (fuel : Nat) : List (Path × Path) → FS σ → Except PyExc (FS σ)
  | [], fs => .ok fs
  | (srcPath, dstPath) :: rest, fs =>
    (fs.makedirs dstPath.dropLast).bind fun fs₁ =>
      (if fs₁.isDir srcPath then fs₁.copytree fuel srcPath dstPath
        else fs₁.copy2 srcPath dstPath).bind fun fs₂ => copyPackagePaths fuel rest fs₂

/-- `copy_dbt_packages(source_folder, target_folder)`; `fuel` bounds the recursion of
    `shutil.copytree`. -/
def copyDbtPackages (yaml : YamlCodec σ) (fuel : Nat) (fs : FS σ) (sourceFolder targetFolder : Path) :
    Except PyExc (FS σ) :=
  (getDbtPackagesSubpath yaml fs sourceFolder).bind fun sub =>
    (copyDbtPackagesPaths sub sourceFolder targetFolder).bind fun paths =>
      copyPackagePaths fuel paths fs

/-- `copy_manifest_file_if_exists(source_manifest, dbt_project_folder)`, where a relative
    `source_manifest` is read from the working directory `cwd`. -/
def copyManifestFileIfExists (fs : FS σ) (cwd : Path) (sourceManifest : String)
    (dbtProjectFolder : Path) : Except PyExc (FS σ) :=
  if sourceManifest ≠ "" ∧ fs.exists (joinPath cwd sourceManifest) then
    (fs.mkdirParents (dbtProjectFolder ++ [dbtTargetDirName])).bind fun fs₁ =>
      fs₁.copy (joinPath cwd sourceManifest) (dbtProjectFolder ++ [dbtTargetDirName, dbtManifestFileName])
  else .ok fs

/-- `get_partial_parse_path(project_dir_path)`. -/
def getPartialParsePath (projectDirPath : Path) : Path :=
  projectDirPath ++ [dbtTargetDirName, dbtPartialParseFileName]

/-- `with change_working_directory(path): body` in the working directory `cwd`: the file
    system and working directory on exit, and the exception that propagates. An exception
    of the `finally` block replaces the body's. -/
def changeWorkingDirectory (path : String) (body : FS σ × Path → (FS σ × Path) × Option PyExc)
    (fs : FS σ) (cwd : Path) : (FS σ × Path) × Option PyExc :=
  match fs.getcwd cwd with
  | .error e => ((fs, cwd), some e)
  | .ok previousCwd =>
    match fs.chdir (joinPath cwd path) with
    | .error e => ((fs, cwd), some e)
    | .ok newCwd =>
      match body (fs, newCwd) with
      | ((fs₁, cwd₁), exc) =>
        match fs₁.chdir previousCwd with
        | .error e => ((fs₁, cwd₁), some e)
        | .ok cwd₂ => ((fs₁, cwd₂), exc)

/-! ## Section 3: Steps -/

theorem joinPath_packageLockfileYml (base : Path) :
    joinPath base packageLockfileYml = base ++ [packageLockfileYml] := rfl

/-- The packages path, once loaded as a `str` that joins as one name, gives the two copies. -/
theorem copyDbtPackages_of_subpath {yaml : YamlCodec σ} {fuel : Nat} {fs : FS σ} {S T : Path}
    {sub p : String} (hsub : getDbtPackagesSubpath yaml fs S = .ok (strRef sub))
    (hjoin : ∀ base, joinPath base sub = base ++ [p]) :
    copyDbtPackages yaml fuel fs S T = copyPackagePaths fuel
      [(S ++ [p], T ++ [p]), (S ++ [packageLockfileYml], T ++ [packageLockfileYml])] fs := by
  simp only [copyDbtPackages, hsub, copyDbtPackagesPaths, strRef, Except.bind, List.map_cons,
    List.map_nil, hjoin, joinPath_packageLockfileYml]

/-- A pair of `copy_dbt_packages` whose destination's directory already exists. -/
theorem copyPackagePaths_cons {fuel : Nat} {fs : FS σ} {srcPath dstPath : Path}
    {rest : List (Path × Path)} (hdir : fs.isDir dstPath.dropLast = true)
    (hpar : fs.exists dstPath.dropLast.dropLast = true) :
    copyPackagePaths fuel ((srcPath, dstPath) :: rest) fs =
      (if fs.isDir srcPath then fs.copytree fuel srcPath dstPath else fs.copy2 srcPath dstPath).bind
        fun fs₂ => copyPackagePaths fuel rest fs₂ := by
  rw [copyPackagePaths, FS.makedirs_of_isDir hdir hpar]
  rfl

/-- `get_dbt_packages_subpath` reads only the project file, which leads to itself. -/
theorem getDbtPackagesSubpath_congr (yaml : YamlCodec σ) {fs fs' : FS σ} {S : Path}
    (h : NoLinks fs (S ++ [dbtProjectFilename]))
    (hag : ∀ q, q <+: S ++ [dbtProjectFilename] → fs'.lookup q = fs.lookup q) :
    getDbtPackagesSubpath yaml fs' S = getDbtPackagesSubpath yaml fs S := by
  have hn : fs'.nodeAt (S ++ [dbtProjectFilename]) = fs.nodeAt (S ++ [dbtProjectFilename]) := by
    rw [FS.nodeAt_of_ne_nil (by simp), FS.nodeAt_of_ne_nil (by simp), hag _ List.prefix_rfl]
  simp only [getDbtPackagesSubpath, FS.exists, FS.readFile, FS.resolve_maxLinks_of_noLinks h,
    FS.resolve_maxLinks_of_noLinks (h.of_agree hag), Option.some_bind, hn]

/-- The names `create_symlinks` always leaves out. -/
theorem mem_ignorePaths {yaml : YamlCodec σ} {fs : FS σ} {S : Path} {flag : Bool}
    {ignore : List Ref} (h : ignorePaths yaml fs S flag = .ok ignore) {n : String}
    (hn : n ∈ [dbtLogDirName, dbtTargetDirName, packageLockfileYml, "profiles.yml"]) :
    strRef n ∈ ignore := by
  have hbase : strRef n ∈ [strRef dbtLogDirName, strRef dbtTargetDirName,
      strRef packageLockfileYml, strRef "profiles.yml"] := by
    simp only [List.mem_cons, List.mem_singleton, List.not_mem_nil, or_false] at hn ⊢
    rcases hn with rfl | rfl | rfl | rfl <;> simp
  unfold ignorePaths at h
  split at h
  · obtain ⟨sub, -, rfl⟩ := map_eq_ok.mp h
    exact List.mem_append_left _ hbase
  · cases h
    exact hbase

/-! ## Section 4: The copies -/

section copies
variable {S T : Path} {fs : FS σ}

/-- `copy_dbt_packages(S, T)` of a packages folder `p` that `copytree` can copy into
    `T ++ [p]`, and of a lock file whose name in `T` is free: `T` gets a copy of both, and
    nothing else changes. -/
theorem copyDbtPackages_fresh (yaml : YamlCodec σ) {p : String} {c : σ} {w : Bool} {fuel : Nat}
    (hsub : getDbtPackagesSubpath yaml fs S = .ok (strRef p))
    (hjoin : ∀ base, joinPath base p = base ++ [p]) (hpre : fs.CopyPre fuel (S ++ [p]) (T ++ [p]))
    (hTpar : fs.exists T.dropLast = true) (hST : ¬ T <+: S ∧ ¬ S <+: T)
    (hlnl : NoLinks fs (S ++ [packageLockfileYml]))
    (hlock : fs.lookup (S ++ [packageLockfileYml]) = some (.file c w))
    (hfree : fs.lookup (T ++ [packageLockfileYml]) = none) :
    ∃ fs₂, copyDbtPackages yaml fuel fs S T = .ok fs₂ ∧
      (∀ rel, fs₂.lookup (T ++ p :: rel) = fs.lookup (S ++ p :: rel)) ∧
      fs₂.lookup (T ++ [packageLockfileYml]) = some (.file c w) ∧
      ∀ q, ¬ T ++ [p] <+: q → q ≠ T ++ [packageLockfileYml] → fs₂.lookup q = fs.lookup q := by
  have hT : NoLinks fs T := by simpa using hpre.dst_parent
  have hTne : T ≠ [] := fun e => hST.1 (e ▸ List.nil_prefix)
  have hTdir : fs.lookup T = some .dir := by
    simpa [FS.nodeAt_of_ne_nil hTne] using hpre.dst_parent_dir
  have hp_lock : p ≠ packageLockfileYml := fun e => by
    have h := hpre.src_dir
    rw [e, hlock] at h
    cases h
  -- the folder, by `copytree`
  obtain ⟨fs₁, htree, hcopy₁, hag₁⟩ := FS.copytree_fresh fuel fs _ _ hpre
  have hTag : ∀ q, q <+: T → fs₁.lookup q = fs.lookup q := fun q hq =>
    hag₁ q fun h => not_prefix_append_singleton T p (h.trans hq)
  have hSl : ∀ q, q <+: S ++ [packageLockfileYml] → fs₁.lookup q = fs.lookup q := fun q hq =>
    hag₁ q fun h => not_prefix_of_along hST.1 hST.2 hq ((List.prefix_append T [p]).trans h)
  have hT₁ : NoLinks fs₁ T := hT.of_agree hTag
  have hTdir₁ : fs₁.lookup T = some .dir := by rw [hTag T List.prefix_rfl, hTdir]
  -- the lock file, by `copy2`, beside it
  have hlc₁ : fs₁.nodeAt (S ++ [packageLockfileYml]) = some (.file c w) := by
    rw [FS.nodeAt_of_ne_nil (by simp), hSl _ List.prefix_rfl, hlock]
  have hfree₁ : fs₁.lookup (T ++ [packageLockfileYml]) = none := by
    rw [hag₁ _ fun h => hp_lock (@eq_of_append_singleton_below _ [] _ _ h), hfree]
  have hcopy := FS.copy_fresh (hlnl.of_agree hSl) hlc₁ hT₁ (by rw [FS.nodeAt_of_ne_nil hTne, hTdir₁])
    hfree₁
  refine ⟨fs₁.put (T ++ [packageLockfileYml]) (.file c w), ?_, fun rel => ?_, by simp [FS.lookup_put],
    fun q hq hql => ?_⟩
  · rw [copyDbtPackages_of_subpath hsub hjoin,
      copyPackagePaths_cons (by simpa using FS.isDir_of_lookup hT hTne hTdir) (by simpa using hTpar),
      if_pos (FS.isDir_of_lookup (by simpa using hpre.src_noLinks []) (by simp) hpre.src_dir), htree]
    show copyPackagePaths fuel [(S ++ [packageLockfileYml], T ++ [packageLockfileYml])] fs₁ = _
    rw [copyPackagePaths_cons (by simpa using FS.isDir_of_lookup hT₁ hTne hTdir₁)
      (by simpa using (FS.exists_dropLast_congr hT hTag).trans hTpar),
      if_neg (by simp [FS.isDir, FS.stat_of_noLinks (hlnl.of_agree hSl), hlc₁]), FS.copy2, hcopy]
    rfl
  · rw [FS.lookup_put, if_neg (by simp [hp_lock])]
    simpa using hcopy₁ rel
  · rw [FS.lookup_put, if_neg hql, hag₁ q hq]

/-- `copy_dbt_packages(S, T)` when `T ++ [p]` links to the packages folder `S ++ [p]` and the
    folder holds a file: `copytree` copies the folder onto itself, and raises. -/
theorem copyDbtPackages_alias (yaml : YamlCodec σ) {sub p n : String} {c : σ} {w : Bool} {fuel : Nat}
    (hsub : getDbtPackagesSubpath yaml fs S = .ok (strRef sub))
    (hjoin : ∀ base, joinPath base sub = base ++ [p]) (hT : NoLinks fs T) (hTne : T ≠ [])
    (hTdir : fs.lookup T = some .dir) (hTpar : fs.exists T.dropLast = true)
    (hlink : fs.lookup (T ++ [p]) = some (.symlink (S ++ [p]))) (hpkg : NoLinks fs (S ++ [p]))
    (hpdir : fs.lookup (S ++ [p]) = some .dir) (hfile : fs.lookup (S ++ [p, n]) = some (.file c w))
    (fs₂ : FS σ) : copyDbtPackages yaml fuel fs S T ≠ .ok fs₂ := fun h => by
  have hTdir' := FS.isDir_of_lookup hT hTne hTdir
  have halias : ∀ rel, fs.resolve maxLinks (T ++ [p] ++ rel) = fs.resolve maxLinks (S ++ [p] ++ rel) :=
    fun rel => by simpa using FS.resolve_through_link hT hlink hpkg 38 rel
  rw [copyDbtPackages_of_subpath hsub hjoin,
    copyPackagePaths_cons (by simpa using hTdir') (by simpa using hTpar),
    if_pos (FS.isDir_of_lookup hpkg (by simp) hpdir)] at h
  obtain ⟨fs₃, htree, -⟩ := bind_eq_ok.mp h
  obtain ⟨-, hall⟩ := FS.copytree_alias fuel (by simp)
    (by simp [FS.exists_eq_isSome_stat, FS.isDir_iff.mp hTdir']) halias htree
  -- the file `n` is listed in the folder, and it is no directory
  have hfile' : fs.lookup (S ++ [p] ++ [n]) = some (.file c w) := by simpa using hfile
  have hdir := hall _ (FS.listdir_of_noLinks hpkg (by rw [FS.nodeAt_of_ne_nil (by simp), hpdir])) n
    (mem_listing.mpr (mem_keys_of_lookup hfile'))
  have hnl : NoLinks fs (S ++ [p] ++ [n]) := hpkg.append_singleton fun t => by rw [hfile']; nofun
  rw [FS.isDir, FS.stat_of_noLinks hnl, FS.nodeAt_of_ne_nil (by simp), hfile'] at hdir
  exact Bool.false_ne_true hdir

/-- `copy_manifest_file_if_exists(s, T)` of a manifest file outside `T ++ [target]`, into a
    directory `T` where nothing stands at or below `target`: `T` gets its own `target`
    folder with the manifest in it. -/
theorem copyManifestFileIfExists_fresh {cwd m : Path} {s : String} {c : σ} {w : Bool}
    (hT : NoLinks fs T)
    (hTdir : fs.nodeAt T = some .dir)
    (htarget : ∀ rel, fs.lookup (T ++ dbtTargetDirName :: rel) = none) (hs : s ≠ "")
    (hm : joinPath cwd s = m) (hmnl : NoLinks fs m) (hmc : fs.nodeAt m = some (.file c w))
    (hmT : ¬ T ++ [dbtTargetDirName] <+: m) :
    copyManifestFileIfExists fs cwd s T = .ok ((fs.put (T ++ [dbtTargetDirName]) .dir).put
      (T ++ [dbtTargetDirName] ++ [dbtManifestFileName]) (.file c w)) := by
  -- `Path.mkdir(parents=True, exist_ok=True)` makes the folder
  have hmk : fs.mkdirParents (T ++ [dbtTargetDirName]) = .ok (fs.put (T ++ [dbtTargetDirName]) .dir) := by
    rw [FS.mkdirParents_of_isDir (FS.isDir_iff.mpr (by rw [FS.stat_of_noLinks hT, hTdir])),
      FS.mkdirExistOk_fresh hT hTdir (htarget [])]
  have hmc₁ : (fs.put (T ++ [dbtTargetDirName]) .dir).nodeAt m = some (.file c w) := by
    rw [FS.nodeAt_put_of_ne fun e => hmT (by subst e; exact List.prefix_rfl), hmc]
  have htgt : NoLinks (fs.put (T ++ [dbtTargetDirName]) .dir) (T ++ [dbtTargetDirName]) :=
    (hT.put (not_prefix_append_singleton T _) _).append_singleton (by simp [FS.lookup_put])
  rw [copyManifestFileIfExists, if_pos ⟨hs, by
      rw [hm, FS.exists_eq_isSome_stat, FS.stat_of_noLinks hmnl, hmc]; rfl⟩, hm, hmk, Except.bind,
    show T ++ [dbtTargetDirName, dbtManifestFileName] = T ++ [dbtTargetDirName] ++ [dbtManifestFileName]
      from (List.append_assoc T [_] [_]).symm]
  exact FS.copy_fresh (hmnl.put hmT _) hmc₁ htgt (by simp [FS.nodeAt, FS.lookup_put])
    (by rw [FS.lookup_put, if_neg (by simp), List.append_assoc, List.singleton_append, htarget])

end copies

/-! ## Section 5: After `create_symlinks` -/

section farm
variable {S T : Path} {ignore : List Ref}

/-- Nothing stands below an empty directory `T`. -/
theorem lookup_below_of_empty {fs : FS σ} (hempty : ∀ e ∈ fs.entries, T <+: e.1 → e.1 = T)
    {rel : Path} (hrel : rel ≠ []) : fs.lookup (T ++ rel) = none := by
  rcases h : fs.lookup (T ++ rel) with _ | n
  · rfl
  · exact absurd (hempty _ (mem_of_lookup_eq_some h) (List.prefix_append T rel)) (by simpa using hrel)

/-- After `create_symlinks` from `S` into an empty `T`, an entry `n` of `S` that is no link
    and not ignored reads the same through `T ++ [n]` as through `S ++ [n]`; a name that is
    no entry of `S` reads as missing in both. -/
theorem createSymlinks_stat (yaml : YamlCodec σ) (fs : FS σ) (flag : Bool) {fs₁ : FS σ} {n : String}
    (hSdir : fs.nodeAt S = some .dir) (hT : NoLinks fs T) (hTdir : fs.nodeAt T = some .dir)
    (hempty : ∀ n, fs.lookup (T ++ [n]) = none) (hST : ¬ T <+: S ∧ ¬ S <+: T)
    (hign : ignorePaths yaml fs S flag = .ok ignore) (hrun : createSymlinks yaml fs S T flag = .ok fs₁)
    (hSn : NoLinks fs (S ++ [n])) (hn : strRef n ∉ ignore) :
    fs₁.stat (T ++ [n]) = fs.stat (S ++ [n]) := by
  have hS := hSn.of_prefix (List.prefix_append S [n])
  obtain ⟨fs', hrun', hlinks, hkeep⟩ := createSymlinks_ok yaml fs flag hS hSdir hT hTdir hempty hign
  obtain rfl : fs' = fs₁ := Except.ok.inj (hrun'.symm.trans hrun)
  have hSag : ∀ q, q <+: S ++ [n] → fs'.lookup q = fs.lookup q := fun q hq =>
    hkeep q (ne_append_singleton_of_not_below (not_prefix_of_along hST.1 hST.2 hq))
  have hT' : NoLinks fs' T := hT.of_agree fun q hq => hkeep q (ne_append_singleton_of_above hq)
  by_cases hmem : S ++ [n] ∈ fs.entries.map Prod.fst
  · -- linked: `T ++ [n]` leads to `S ++ [n]`
    have hlink : fs'.lookup (T ++ [n]) = some (.symlink (S ++ [n])) := by
      rw [hlinks, if_pos ⟨hmem, hn⟩]
    rw [← FS.stat_congr hSn hSag, FS.stat, FS.stat,
      show maxLinks = 38 + 2 from rfl, resolve_link hT' hlink (hSn.of_agree hSag) 38,
      resolve_of_noLinks (hSn.of_agree hSag)]
  · -- not linked: both missing
    have hnone : fs'.lookup (T ++ [n]) = none := by rw [hlinks, if_neg fun h => hmem h.1]
    have hSnone : fs.lookup (S ++ [n]) = none := lookup_eq_none_of_not_mem hmem
    rw [FS.stat_of_noLinks (hT'.append_singleton (by simp [hnone])), FS.stat_of_noLinks hSn,
      FS.nodeAt_of_ne_nil (by simp), FS.nodeAt_of_ne_nil (by simp), hnone, hSnone]

/-- After `create_symlinks(S, T, ...)` into an empty `T`, `has_non_empty_dependencies_file`
    answers for `T` what it answers for `S`: each dependency file of `S` that is no link and
    not ignored is linked from `T`. -/
theorem createSymlinks_hasNonEmptyDependenciesFile (yaml : YamlCodec σ) (stSize : Node σ → Nat)
    (fs : FS σ) (flag : Bool)
    (hSdir : fs.nodeAt S = some .dir) (hT : NoLinks fs T) (hTdir : fs.nodeAt T = some .dir)
    (hempty : ∀ e ∈ fs.entries, T <+: e.1 → e.1 = T) (hST : ¬ T <+: S ∧ ¬ S <+: T)
    (hign : ignorePaths yaml fs S flag = .ok ignore)
    (hdeps : ∀ n ∈ dbtDependenciesFileNames, NoLinks fs (S ++ [n]) ∧ strRef n ∉ ignore) :
    ∃ fs₁, createSymlinks yaml fs S T flag = .ok fs₁ ∧
      hasNonEmptyDependenciesFile stSize fs₁ T = hasNonEmptyDependenciesFile stSize fs S := by
  have hS : NoLinks fs S := fun q hq =>
    (hdeps _ (List.mem_cons_self _ _)).1 q (hq.trans (List.prefix_append S _))
  have hempty' : ∀ n, fs.lookup (T ++ [n]) = none := fun _ => lookup_below_of_empty hempty (by simp)
  obtain ⟨fs₁, hrun, -⟩ := createSymlinks_ok yaml fs flag hS hSdir hT hTdir hempty' hign
  have hstat : ∀ n ∈ dbtDependenciesFileNames, fs₁.stat (T ++ [n]) = fs.stat (S ++ [n]) :=
    fun n hn => createSymlinks_stat yaml fs flag hSdir hT hTdir hempty' hST hign hrun
      (hdeps n hn).1 (hdeps n hn).2
  refine ⟨fs₁, hrun, ?_⟩
  simp only [hasNonEmptyDependenciesFile, dbtDependenciesFileNames, List.any_cons, List.any_nil,
    hstat "dependencies.yml" (by simp [dbtDependenciesFileNames]),
    hstat "packages.yml" (by simp [dbtDependenciesFileNames])]

/-- With `ignore_dbt_packages`, a packages path `p` that joins as the one name `p`, and a
    packages folder with no links below it: after `create_symlinks(S, T, True)` into an
    empty `T`, `copy_dbt_packages(S, T)` gives `T` a copy of the folder and of the lock file,
    and changes nothing outside `T`. -/
theorem createSymlinks_then_copyDbtPackages (yaml : YamlCodec σ) (fs : FS σ) {p : String} {c : σ}
    {w : Bool} {fuel : Nat} (hwf : fs.WellFormed) (hSf : NoLinks fs (S ++ [dbtProjectFilename]))
    (hSdir : fs.nodeAt S = some .dir) (hT : NoLinks fs T) (hTdir : fs.nodeAt T = some .dir)
    (hempty : ∀ e ∈ fs.entries, T <+: e.1 → e.1 = T) (hST : ¬ T <+: S ∧ ¬ S <+: T)
    (hsub : getDbtPackagesSubpath yaml fs S = .ok (strRef p))
    (hjoin : ∀ base, joinPath base p = base ++ [p])
    (hpdir : fs.lookup (S ++ [p]) = some .dir) (htree : fs.TreeBelow fuel (S ++ [p]))
    (hlock : fs.lookup (S ++ [packageLockfileYml]) = some (.file c w)) :
    ∃ fs₁ fs₂, createSymlinks yaml fs S T true = .ok fs₁ ∧
      copyDbtPackages yaml fuel fs₁ S T = .ok fs₂ ∧
      (∀ rel, fs₂.lookup (T ++ p :: rel) = fs.lookup (S ++ p :: rel)) ∧
      fs₂.lookup (T ++ [packageLockfileYml]) = some (.file c w) ∧
      ∀ q, ¬ T <+: q → fs₂.lookup q = fs.lookup q := by
  have hS := hSf.of_prefix (List.prefix_append S _)
  have hbelowT : ∀ rel, rel ≠ [] → fs.lookup (T ++ rel) = none := fun _ => lookup_below_of_empty hempty
  -- Step 1: the links; the folder and the lock file are ignored
  have hign : ignorePaths yaml fs S true = .ok ([strRef dbtLogDirName, strRef dbtTargetDirName,
      strRef packageLockfileYml, strRef "profiles.yml"] ++ [strRef p]) := by
    simp [ignorePaths, hsub, Except.map]
  obtain ⟨fs₁, hrun, hlinks, hkeep⟩ := createSymlinks_ok yaml fs true hS hSdir hT hTdir
    (fun n => hbelowT [n] (List.cons_ne_nil _ _)) hign
  have hoff : ∀ q, ¬ T <+: q → fs₁.lookup q = fs.lookup q := fun q hq =>
    hkeep q (ne_append_singleton_of_not_below hq)
  have hSag : ∀ x q, q <+: S ++ x → fs₁.lookup q = fs.lookup q := fun x q hq =>
    hoff q (not_prefix_of_along hST.1 hST.2 hq)
  have hTag : ∀ x q, q <+: T ++ [p] ++ x → fs₁.lookup q = fs.lookup q := fun x q hq => by
    by_cases hqp : q = T ++ [p]
    · rw [hqp, hlinks, if_neg fun h => h.2 (by simp), hbelowT [p] (List.cons_ne_nil _ _)]
    · exact hkeep q fun m e => hqp <| by
        subst e
        rw [eq_of_append_singleton_below (by simpa using hq : T ++ [m] <+: T ++ p :: x)]
  -- Step 2: the copies, into the names the links left free
  have hpre : fs₁.CopyPre fuel (S ++ [p]) (T ++ [p]) :=
    (FS.CopyPre.of_treeBelow hwf (hS.append_singleton (by simp [hpdir])) hpdir htree (by simpa using hT)
      (by simpa using hTdir) (by simp) (fun rel => by simpa using hbelowT (p :: rel) (by simp))
      (fun h => hST.1 (prefix_of_append_singleton h))
      (fun h => hST.2 (prefix_of_append_singleton h))).congr
      (fun x => by simpa using hSag (p :: x)) hTag
  obtain ⟨fs₂, hcopy, htree₂, hlock₂, hframe⟩ := copyDbtPackages_fresh yaml
    ((getDbtPackagesSubpath_congr yaml hSf (hSag _)).trans hsub) hjoin hpre
    ((FS.exists_dropLast_congr hT fun q hq => hTag [] q (hq.trans (by simp))).trans
      (hwf.exists_dropLast hT hTdir)) hST
    ((hS.append_singleton (by simp [hlock])).of_agree (hSag _)) (by rw [hSag _ _ List.prefix_rfl, hlock])
    (by rw [hlinks, if_neg fun h => h.2 (by simp)])
  refine ⟨fs₁, fs₂, hrun, hcopy, fun rel => (htree₂ rel).trans (hSag (p :: rel) _ List.prefix_rfl),
    hlock₂, fun q hq => ?_⟩
  rw [hframe q (fun h => hq ((List.prefix_append T [p]).trans h))
    (fun e => hq (e ▸ List.prefix_append T _)), hoff q hq]

/-- PyYAML for projects with no `dbt_project.yml`, which never call it. -/
def noYaml : YamlCodec String := ⟨fun _ => .error (.yamlError "no document"), fun _ _ => ""⟩

/-- A project with no `dbt_project.yml`, the package `dbt_utils` installed in
    `dbt_packages`, its lock file, and an empty `/tmp`. -/
def installedProject : FS String :=
  ⟨[(["project"], .dir), (["project", "dbt_packages"], .dir),
    (["project", "dbt_packages", "dbt_utils"], .dir),
    (["project", "dbt_packages", "dbt_utils", "dbt_project.yml"], .file "name: dbt_utils" true),
    (["project", "package-lock.yml"], .file "packages: []" true), (["tmp"], .dir)], by decide⟩

theorem createSymlinks_then_copyDbtPackages_installed :
    ∃ fs₁ fs₂, createSymlinks noYaml installedProject ["project"] ["tmp"] true = .ok fs₁ ∧
      copyDbtPackages noYaml 3 fs₁ ["project"] ["tmp"] = .ok fs₂ ∧
      (∀ rel, fs₂.lookup (["tmp"] ++ "dbt_packages" :: rel) =
        installedProject.lookup (["project"] ++ "dbt_packages" :: rel)) ∧
      fs₂.lookup (["tmp"] ++ [packageLockfileYml]) = some (.file "packages: []" true) ∧
      ∀ q, ¬ ["tmp"] <+: q → fs₂.lookup q = installedProject.lookup q :=
  createSymlinks_then_copyDbtPackages noYaml installedProject (S := ["project"]) (T := ["tmp"])
    (by decide) (by decide) rfl (by decide) rfl (by decide) (by decide) rfl (fun _ => rfl) rfl
    (by decide) rfl

/-- With `ignore_dbt_packages` and a packages path `sub` that `pathlib` joins as the name `p`
    of a directory of `S` but that is not `p` itself, such as `dbt_packages/`: after
    `create_symlinks(S, T, True)` into an empty `T`, `T ++ [p]` is a link to that directory,
    and `copy_dbt_packages(S, T)` copies it onto itself; a file in it makes the copy raise. -/
theorem createSymlinks_then_copyDbtPackages_raises (yaml : YamlCodec σ) (fs : FS σ)
    {sub p n : String} {c : σ} {w : Bool} {fuel : Nat} (hSf : NoLinks fs (S ++ [dbtProjectFilename]))
    (hSdir : fs.nodeAt S = some .dir) (hT : NoLinks fs T) (hTdir : fs.nodeAt T = some .dir)
    (hTpar : fs.exists T.dropLast = true) (hempty : ∀ e ∈ fs.entries, T <+: e.1 → e.1 = T)
    (hST : ¬ T <+: S ∧ ¬ S <+: T) (hsub : getDbtPackagesSubpath yaml fs S = .ok (strRef sub))
    (hjoin : ∀ base, joinPath base sub = base ++ [p]) (hne : sub ≠ p)
    (hbase : p ∉ [dbtLogDirName, dbtTargetDirName, packageLockfileYml, "profiles.yml"])
    (hpkg : NoLinks fs (S ++ [p])) (hpdir : fs.lookup (S ++ [p]) = some .dir)
    (hfile : fs.lookup (S ++ [p, n]) = some (.file c w)) :
    ∃ fs₁, createSymlinks yaml fs S T true = .ok fs₁ ∧
      fs₁.lookup (T ++ [p]) = some (.symlink (S ++ [p])) ∧
      ∀ fs₂, copyDbtPackages yaml fuel fs₁ S T ≠ .ok fs₂ := by
  have hS := hSf.of_prefix (List.prefix_append S _)
  have hTne : T ≠ [] := fun e => hST.1 (e ▸ List.nil_prefix)
  have hign : ignorePaths yaml fs S true = .ok ([strRef dbtLogDirName, strRef dbtTargetDirName,
      strRef packageLockfileYml, strRef "profiles.yml"] ++ [strRef sub]) := by
    simp [ignorePaths, hsub, Except.map]
  obtain ⟨fs₁, hrun, hlinks, hkeep⟩ := createSymlinks_ok yaml fs true hS hSdir hT hTdir
    (fun _ => lookup_below_of_empty hempty (by simp)) hign
  have hSag : ∀ x q, q <+: S ++ x → fs₁.lookup q = fs.lookup q := fun x q hq =>
    hkeep q (ne_append_singleton_of_not_below (not_prefix_of_along hST.1 hST.2 hq))
  have hTag : ∀ q, q <+: T → fs₁.lookup q = fs.lookup q := fun q hq =>
    hkeep q (ne_append_singleton_of_above hq)
  -- `p` is neither a name dbt writes nor the `str` `sub`: `T ++ [p]` links the folder
  have hlink : fs₁.lookup (T ++ [p]) = some (.symlink (S ++ [p])) := by
    refine (hlinks p).trans (if_pos ⟨mem_keys_of_lookup hpdir, fun h => ?_⟩)
    simp only [List.mem_append, List.mem_cons, List.mem_singleton, List.not_mem_nil, or_false,
      strRef, Ref.val.injEq, Value.scalar.injEq, Scalar.str.injEq] at h hbase
    rcases h with h | h
    · exact hbase h
    · exact hne h.symm
  exact ⟨fs₁, hrun, hlink, copyDbtPackages_alias yaml ((getDbtPackagesSubpath_congr yaml hSf (hSag _)).trans hsub)
    hjoin (hT.of_agree hTag) hTne (by rw [hTag T List.prefix_rfl, ← FS.nodeAt_of_ne_nil hTne, hTdir])
    ((FS.exists_dropLast_congr hT hTag).trans hTpar) hlink (hpkg.of_agree (hSag [p]))
    (by rw [hSag [p] _ List.prefix_rfl, hpdir]) ((hSag [p, n] _ (by simp)).trans hfile)⟩

/-- `slashedPackagesProject` with a file in its `dbt_packages` folder. -/
def slashedPackagesInstalled : FS (Heap × Ref) :=
  ⟨slashedPackagesProject.entries ++
    [(["project", "dbt_packages", "packages.yml"], .file (testConfig, .obj 0) true)], by decide⟩

theorem createSymlinks_then_copyDbtPackages_slashed :
    ∃ fs₁, createSymlinks graphCodec slashedPackagesInstalled ["project"] ["tmp"] true = .ok fs₁ ∧
      fs₁.lookup (["tmp"] ++ ["dbt_packages"]) = some (.symlink (["project"] ++ ["dbt_packages"])) ∧
      ∀ fs₂, copyDbtPackages graphCodec 3 fs₁ ["project"] ["tmp"] ≠ .ok fs₂ :=
  createSymlinks_then_copyDbtPackages_raises graphCodec slashedPackagesInstalled (S := ["project"])
    (T := ["tmp"]) (p := "dbt_packages") (n := "packages.yml") (by decide) rfl (by decide) rfl rfl
    (by decide) (by decide) rfl (fun _ => rfl) (by decide) (by decide) (by decide) rfl rfl

/-- After `create_symlinks(S, T, ...)` into an empty `T`, `copy_manifest_file_if_exists(m, T)`
    of a manifest file outside `T` makes `T`'s own `target` folder and writes
    `manifest.json` there: `target` is never linked, so nothing outside that folder
    changes, and dbt's partial parse path in `T` leads to itself. -/
theorem createSymlinks_then_copyManifest (yaml : YamlCodec σ) (fs : FS σ) (flag : Bool)
    {cwd m : Path} {s : String} {c : σ} {w : Bool} (hS : NoLinks fs S) (hSdir : fs.nodeAt S = some .dir)
    (hT : NoLinks fs T) (hTdir : fs.nodeAt T = some .dir)
    (hempty : ∀ e ∈ fs.entries, T <+: e.1 → e.1 = T)
    (hign : ignorePaths yaml fs S flag = .ok ignore) (hs : s ≠ "") (hm : joinPath cwd s = m)
    (hmnl : NoLinks fs m) (hmc : fs.nodeAt m = some (.file c w)) (hmT : ¬ T <+: m) :
    ∃ fs₁ fs₂, createSymlinks yaml fs S T flag = .ok fs₁ ∧
      copyManifestFileIfExists fs₁ cwd s T = .ok fs₂ ∧
      fs₂.lookup (T ++ [dbtTargetDirName, dbtManifestFileName]) = some (.file c w) ∧
      NoLinks fs₂ (getPartialParsePath T) ∧
      ∀ q, ¬ T ++ [dbtTargetDirName] <+: q → fs₂.lookup q = fs₁.lookup q := by
  have hbelowT : ∀ rel, rel ≠ [] → fs.lookup (T ++ rel) = none := fun _ => lookup_below_of_empty hempty
  obtain ⟨fs₁, hrun, hlinks, hkeep⟩ := createSymlinks_ok yaml fs flag hS hSdir hT hTdir
    (fun n => hbelowT [n] (List.cons_ne_nil _ _)) hign
  have hTag : ∀ q, q <+: T → fs₁.lookup q = fs.lookup q := fun q hq =>
    hkeep q (ne_append_singleton_of_above hq)
  have hm₁ : ∀ q, q <+: m → fs₁.lookup q = fs.lookup q := fun q hq =>
    hkeep q (ne_append_singleton_of_not_below fun h => hmT (h.trans hq))
  -- `target` is always ignored: nothing stands at or below `T ++ [target]`
  have htarget : ∀ rel, fs₁.lookup (T ++ dbtTargetDirName :: rel) = none
    | [] => by rw [hlinks, if_neg fun h => h.2 (mem_ignorePaths hign (by simp))]
    | n :: rel => by
      rw [hkeep _ fun m e => by simpa using congrArg List.length e, hbelowT _ (by simp)]
  have hcopy := copyManifestFileIfExists_fresh (hT.of_agree hTag)
    (by simpa only [FS.nodeAt, hTag T List.prefix_rfl] using hTdir) htarget hs hm (hmnl.of_agree hm₁)
    (by simpa only [FS.nodeAt, hm₁ m List.prefix_rfl] using hmc)
    (fun h => hmT ((List.prefix_append T _).trans h))
  refine ⟨fs₁, _, hrun, hcopy, by simp [FS.lookup_put], ?_, fun q hq => ?_⟩
  · -- the partial parse path: `T`, the new folder, and a free name in it
    have htgt : NoLinks ((fs₁.put (T ++ [dbtTargetDirName]) .dir).put
        (T ++ [dbtTargetDirName] ++ [dbtManifestFileName]) (.file c w)) (T ++ [dbtTargetDirName]) :=
      ((((hT.of_agree hTag).put (not_prefix_append_singleton T _) _).append_singleton
        (by simp [FS.lookup_put])).put (by simp) _)
    have hpartial : NoLinks _ (T ++ [dbtTargetDirName] ++ [dbtPartialParseFileName]) :=
      htgt.append_singleton fun t => by
        rw [FS.lookup_put, if_neg (by simp [dbtPartialParseFileName, dbtManifestFileName]),
          FS.lookup_put, if_neg (by simp), List.append_assoc, List.singleton_append, htarget]
        nofun
    simpa [getPartialParsePath] using hpartial
  · have hq₁ : q ≠ T ++ [dbtTargetDirName] := fun e => hq (e ▸ List.prefix_rfl)
    have hq₂ : q ≠ T ++ [dbtTargetDirName] ++ [dbtManifestFileName] :=
      fun e => hq (e ▸ List.prefix_append _ _)
    rw [FS.lookup_put, if_neg hq₂, FS.lookup_put, if_neg hq₁]

/-- A compiled project: its manifest in `target`, a `packages.yml`, and an empty `/tmp`. -/
def compiledProject : FS String :=
  ⟨[(["project"], .dir), (["project", "packages.yml"], .file "packages: [dbt_utils]" true),
    (["project", "target"], .dir), (["project", "target", "manifest.json"], .file "{}" true),
    (["tmp"], .dir)], by decide⟩

theorem createSymlinks_then_copyManifest_compiled :
    ∃ fs₁ fs₂, createSymlinks noYaml compiledProject ["project"] ["tmp"] false = .ok fs₁ ∧
      copyManifestFileIfExists fs₁ [] "/project/target/manifest.json" ["tmp"] = .ok fs₂ ∧
      fs₂.lookup (["tmp"] ++ [dbtTargetDirName, dbtManifestFileName]) = some (.file "{}" true) ∧
      NoLinks fs₂ (getPartialParsePath ["tmp"]) ∧
      ∀ q, ¬ ["tmp"] ++ [dbtTargetDirName] <+: q → fs₂.lookup q = fs₁.lookup q :=
  createSymlinks_then_copyManifest noYaml compiledProject false (S := ["project"]) (T := ["tmp"])
    (by decide) rfl (by decide) rfl (by decide) rfl (by decide) rfl (by decide) rfl (by decide)

/-- `st_size` of a file as the length of its text, and of anything else as one block. -/
def textSize : Node String → Nat
  | .file c _ => c.length
  | _ => 4096

theorem createSymlinks_hasNonEmptyDependenciesFile_compiled :
    ∃ fs₁, createSymlinks noYaml compiledProject ["project"] ["tmp"] false = .ok fs₁ ∧
      hasNonEmptyDependenciesFile textSize fs₁ ["tmp"] =
        hasNonEmptyDependenciesFile textSize compiledProject ["project"] :=
  createSymlinks_hasNonEmptyDependenciesFile noYaml textSize compiledProject false
    (S := ["project"]) (T := ["tmp"]) rfl (by decide) rfl (by decide) (by decide) rfl (by decide)

end farm

/-! ## Section 6: `change_working_directory` -/

section cwd
variable {path : String} {body : FS σ × Path → (FS σ × Path) × Option PyExc} {fs fs₁ : FS σ}
  {cwd newCwd cwd₁ : Path} {exc : Option PyExc}

/-- When the body leaves the working directory of entry a directory with no link on its
    path, `change_working_directory` returns there on exit and lets the body's exception
    through. -/
theorem changeWorkingDirectory_restores (hcwd : fs.nodeAt cwd = some .dir)
    (hchdir : fs.chdir (joinPath cwd path) = .ok newCwd)
    (hbody : body (fs, newCwd) = ((fs₁, cwd₁), exc)) (hback : NoLinks fs₁ cwd)
    (hdir : fs₁.nodeAt cwd = some .dir) :
    changeWorkingDirectory path body fs cwd = ((fs₁, cwd), exc) := by
  simp only [changeWorkingDirectory, FS.getcwd, hcwd, hchdir, hbody]
  simp [FS.chdir, FS.resolve_maxLinks_of_noLinks hback, hdir]

/-- When the body removes the working directory of entry, `change_working_directory` raises
    `FileNotFoundError` on exit, in place of the body's exception, and stays where the body
    left. -/
theorem changeWorkingDirectory_raises (hcwd : fs.nodeAt cwd = some .dir)
    (hchdir : fs.chdir (joinPath cwd path) = .ok newCwd)
    (hbody : body (fs, newCwd) = ((fs₁, cwd₁), exc)) (hgone : NoLinks fs₁ cwd)
    (hnone : fs₁.nodeAt cwd = none) :
    changeWorkingDirectory path body fs cwd = ((fs₁, cwd₁), some (.fileNotFoundError (pathStr cwd))) := by
  simp only [changeWorkingDirectory, FS.getcwd, hcwd, hchdir, hbody]
  simp [FS.chdir, FS.resolve_maxLinks_of_noLinks hgone, hnone]

end cwd

end Cosmos
