import Cosmos.Dbt.TmpProject
import Cosmos.Fs.Recopy

/-! # The packages path under `copy_dbt_packages`

    `copy_dbt_packages(source_folder, target_folder)` joins the loaded
    `packages-install-path` to both folders with `pathlib`, and copies the first path onto
    the second with `shutil.copytree(..., dirs_exist_ok=True)`. What that does depends on
    the shape of the path, and on what `create_symlinks` left in the target:

    * `copyDbtPackages_absolute_raises`: an absolute path names the same folder under both
      folders, so the copy goes onto the folder itself, and raises as soon as a file
      stands anywhere in it;
    * `createSymlinks_then_copyDbtPackages_nested_raises`: a relative path of more than
      one name is never a name `create_symlinks` lists, so the temporary project links the
      path's first name to the project's; the copy goes through that link onto the folder
      itself, and raises the same way;
    * `copyDbtPackages_idempotent`: with a path of one plain name, a second copy onto what
      the first left changes nothing.
-/

namespace Cosmos

variable {σ : Type}

/-! ## Section 1: Paths and the copy loop -/

/-- No piece of a list split on `c` holds `c`. -/
theorem not_mem_of_mem_splitOn (c : Char) : ∀ (l m : List Char), m ∈ l.splitOn c → c ∉ m
  | [], m, h => by simp_all [List.splitOn]
  | a :: l, m, h => by
    have ih := not_mem_of_mem_splitOn c l
    unfold List.splitOn at h ih
    rw [List.splitOnP_cons] at h
    split at h
    · rcases List.mem_cons.mp h with rfl | h
      · exact List.not_mem_nil c
      · exact ih m h
    · obtain ⟨m₀, ms, hl⟩ := List.exists_cons_of_ne_nil (List.splitOnP_ne_nil _ l)
      rw [hl] at h ih
      rcases List.mem_cons.mp h with rfl | h
      · exact fun hc => (List.mem_cons.mp hc).elim (fun e => by simp_all) (ih m₀ (List.mem_cons_self _ _))
      · exact ih m (List.mem_cons_of_mem _ h)

/-- The names `pathlib` parses hold no `/`. -/
theorem slash_not_mem_of_mem_pathParts {s n : String} (h : n ∈ pathParts s) : '/' ∉ n.toList := by
  obtain ⟨l, hl, rfl⟩ := List.mem_map.mp (List.mem_of_mem_filter h)
  exact not_mem_of_mem_splitOn '/' _ l hl

/-- A string that `pathlib` parses with itself as first name is one name. -/
theorem eq_nil_of_pathParts_eq_cons {s : String} {ps : Path} (h : pathParts s = s :: ps) : ps = [] := by
  have hs := slash_not_mem_of_mem_pathParts (h ▸ List.mem_cons_self s ps)
  have hsplit : s.toList.splitOn '/' = [s.toList] :=
    List.splitOnP_eq_single _ _ fun x hx e => hs (by rwa [beq_iff_eq.mp e] at hx)
  have hlen : (pathParts s).length ≤ 1 := by
    rw [pathParts, hsplit]
    exact (List.length_filter_le _ _).trans (by simp)
  rw [h] at hlen
  simpa using hlen

/-- A packages path that `pathlib` joins as more than one name is not the first of them. -/
theorem ne_of_joinPath_eq_cons {sub p : String} {ps : Path} (hjoin : ∀ base, joinPath base sub = base ++ p :: ps)
    (hps : ps ≠ []) : sub ≠ p := fun e => by
  subst e
  have h := hjoin []
  unfold joinPath at h
  split at h <;> exact hps (eq_nil_of_pathParts_eq_cons (by simpa using h))

/-- A packages path loaded as a `str` gives the copies of the folder and of the lock file. -/
theorem copyDbtPackages_of_str {yaml : YamlCodec σ} {fuel : Nat} {fs : FS σ} {S T : Path}
    {sub : String} (hsub : getDbtPackagesSubpath yaml fs S = .ok (strRef sub)) :
    copyDbtPackages yaml fuel fs S T = copyPackagePaths fuel
      [(joinPath S sub, joinPath T sub), (S ++ [packageLockfileYml], T ++ [packageLockfileYml])] fs := by
  simp only [copyDbtPackages, hsub, copyDbtPackagesPaths, strRef, Except.bind, List.map_cons,
    List.map_nil, joinPath_packageLockfileYml]

/-- Below a path with no link on it, where no entry is a link, no path has a link on it. -/
theorem noLinks_below {fs : FS σ} {S : Path} (hS : NoLinks fs S)
    (hlinks : ∀ e ∈ fs.entries, S <+: e.1 → e.2.isLink = false) (rel : Path) :
    NoLinks fs (S ++ rel) := fun q hq hne t hl => by
  rcases le_total q.length S.length with hlen | hlen
  · exact hS q (List.prefix_of_prefix_length_le hq (List.prefix_append S rel) hlen) hne t hl
  · have := hlinks _ (mem_of_lookup_eq_some hl)
      (List.prefix_of_prefix_length_le (List.prefix_append S rel) hq hlen)
    simp [Node.isLink] at this

/-- In a well-formed file system, every entry below a path other than the root stands in a
    directory. -/
theorem FS.WellFormed.parents {fs : FS σ} (hwf : fs.WellFormed) {S : Path} (hS : S ≠ []) :
    ∀ rel name, (fs.lookup (S ++ rel ++ [name])).isSome → fs.lookup (S ++ rel) = some .dir :=
  fun rel name h => by
    obtain ⟨n, hn⟩ := Option.isSome_iff_exists.mp h
    have hw := hwf _ (mem_of_lookup_eq_some hn)
    rwa [List.dropLast_concat, FS.nodeAt_of_ne_nil (by simp [hS])] at hw

/-- The loop of `copy_dbt_packages` on a pair whose destination leads where its source does
    at every name below, with a file somewhere below the source: `copytree` raises. -/
theorem copyPackagePaths_alias {fuel : Nat} {fs : FS σ} {src dst : Path}
    {rest : List (Path × Path)} {n : String} {rel : Path} {c : σ} {w : Bool} (hdst : dst ≠ [])
    (hdir : fs.isDir dst.dropLast = true) (hpar : fs.exists dst.dropLast.dropLast = true)
    (halias : ∀ x, fs.resolve maxLinks (dst ++ x) = fs.resolve maxLinks (src ++ x))
    (hsrc : ∀ x, NoLinks fs (src ++ x))
    (hparents : ∀ x name, (fs.lookup (src ++ x ++ [name])).isSome → fs.lookup (src ++ x) = some .dir)
    (hfile : fs.lookup (src ++ n :: rel) = some (.file c w)) (fs' : FS σ) :
    copyPackagePaths fuel ((src, dst) :: rest) fs ≠ .ok fs' := fun h => by
  have hsdir : fs.isDir src = true := by
    rw [FS.isDir_iff, FS.stat_of_noLinks (by simpa using hsrc [])]
    unfold FS.nodeAt; split
    · rfl
    · exact lookup_dir_of_parents hparents (Option.isSome_iff_exists.mpr ⟨_, hfile⟩)
  rw [copyPackagePaths_cons hdir hpar, if_pos hsdir] at h
  obtain ⟨fs₃, htree, -⟩ := bind_eq_ok.mp h
  exact (FS.copytree_alias_tree fuel hdst (by simp [FS.exists_eq_isSome_stat, FS.isDir_iff.mp hdir])
    halias hsrc hparents htree).2 n rel c w hfile

/-- PyYAML on project files that hold one line `packages-install-path: <path>`, each file
    given by its `<path>`: the loaded config maps the key to the file's content. -/
def packagesPathYaml : YamlCodec String :=
  ⟨fun c => .ok (⟨fun a => if a = 0 then [(.str "packages-install-path", strRef c)] else [], 1⟩, .obj 0),
    fun _ _ => ""⟩

/-! ## Section 2: An absolute packages path -/

/-- An absolute `packages-install-path` names one folder under the source and under the
    target: `copy_dbt_packages(S, T)` copies the folder onto itself, and raises as soon as a
    file stands anywhere below it, whatever `S` and `T`. -/
theorem copyDbtPackages_absolute_raises (yaml : YamlCodec σ) (fs : FS σ) (S T : Path) (fuel : Nat)
    {sub n : String} {rel : Path} {c : σ} {w : Bool} (hwf : fs.WellFormed)
    (hsub : getDbtPackagesSubpath yaml fs S = .ok (strRef sub)) (habs : sub.toList.head? = some '/')
    (hne : pathParts sub ≠ []) (hnl : NoLinks fs (pathParts sub))
    (hlinks : ∀ e ∈ fs.entries, pathParts sub <+: e.1 → e.2.isLink = false)
    (hfile : fs.lookup (pathParts sub ++ n :: rel) = some (.file c w)) :
    ∃ e, copyDbtPackages yaml fuel fs S T = .error e := by
  have hjoin : ∀ base, joinPath base sub = pathParts sub := fun _ => if_pos habs
  have hparents := hwf.parents hne
  have hdir := lookup_dir_of_parents hparents (Option.isSome_iff_exists.mpr ⟨_, hfile⟩)
  have hpar : fs.nodeAt (pathParts sub).dropLast = some .dir := hwf _ (mem_of_lookup_eq_some hdir)
  have hparnl := hnl.of_prefix (List.dropLast_prefix _)
  rcases hrun : copyDbtPackages yaml fuel fs S T with e | fs'
  · exact ⟨e, rfl⟩
  rw [copyDbtPackages_of_str hsub, hjoin, hjoin] at hrun
  exact absurd hrun <| copyPackagePaths_alias hne (FS.isDir_iff.mpr (by rw [FS.stat_of_noLinks hparnl, hpar]))
    (hwf.exists_dropLast hparnl hpar) (fun _ => rfl) (noLinks_below hnl hlinks) hparents hfile fs'

/-- A project whose `dbt_project.yml` sets `packages-install-path: /opt/dbt_packages`, with
    `dbt_utils` installed there, and an empty `/tmp`. -/
def absolutePackagesProject : FS String :=
  ⟨[(["project"], .dir), (["project", "dbt_project.yml"], .file "/opt/dbt_packages" true),
    (["opt"], .dir), (["opt", "dbt_packages"], .dir), (["opt", "dbt_packages", "dbt_utils"], .dir),
    (["opt", "dbt_packages", "dbt_utils", "dbt_project.yml"], .file "name: dbt_utils" true),
    (["tmp"], .dir)], by decide⟩

theorem copyDbtPackages_absolute_installed :
    ∃ e, copyDbtPackages packagesPathYaml 3 absolutePackagesProject ["project"] ["tmp"] = .error e :=
  copyDbtPackages_absolute_raises packagesPathYaml absolutePackagesProject ["project"] ["tmp"] 3
    (by decide)
    (rfl : getDbtPackagesSubpath packagesPathYaml absolutePackagesProject ["project"] =
      .ok (strRef "/opt/dbt_packages"))
    rfl (by decide) (by decide) (by decide)
    (rfl : absolutePackagesProject.lookup (pathParts "/opt/dbt_packages" ++ ["dbt_utils", "dbt_project.yml"]) =
      some (.file "name: dbt_utils" true))

/-! ## Section 3: A nested packages path -/

section nested
variable {S T : Path}

/-- With `ignore_dbt_packages` and a relative `packages-install-path` of more than one name,
    such as `vendor/dbt_packages`: the `str` is never a name of the project, so
    `create_symlinks(S, T, True)` into an empty `T` links the path's first name `p` to the
    project's folder `S ++ [p]`; `copy_dbt_packages(S, T)` then copies the packages folder
    through that link onto itself, and raises as soon as a file stands anywhere below it. -/
theorem createSymlinks_then_copyDbtPackages_nested_raises (yaml : YamlCodec σ) (fs : FS σ)
    {sub p n : String} {ps rel : Path} {c : σ} {w : Bool} {fuel : Nat} (hwf : fs.WellFormed)
    (hSf : NoLinks fs (S ++ [dbtProjectFilename])) (hT : NoLinks fs T)
    (hTdir : fs.nodeAt T = some .dir) (hempty : ∀ e ∈ fs.entries, T <+: e.1 → e.1 = T)
    (hST : ¬ T <+: S ∧ ¬ S <+: T) (hsub : getDbtPackagesSubpath yaml fs S = .ok (strRef sub))
    (hjoin : ∀ base, joinPath base sub = base ++ p :: ps) (hps : ps ≠ [])
    (hbase : p ∉ [dbtLogDirName, dbtTargetDirName, packageLockfileYml, "profiles.yml"])
    (hpkg : NoLinks fs (S ++ p :: ps)) (hlinks : ∀ e ∈ fs.entries, S ++ p :: ps <+: e.1 → e.2.isLink = false)
    (hfile : fs.lookup (S ++ p :: ps ++ n :: rel) = some (.file c w)) :
    ∃ fs₁, createSymlinks yaml fs S T true = .ok fs₁ ∧
      fs₁.lookup (T ++ [p]) = some (.symlink (S ++ [p])) ∧
      ∀ fs₂, copyDbtPackages yaml fuel fs₁ S T ≠ .ok fs₂ := by
  have hS := hSf.of_prefix (List.prefix_append S _)
  have hTne : T ≠ [] := fun e => hST.1 (e ▸ List.nil_prefix)
  have hfile' : fs.lookup (S ++ p :: (ps ++ n :: rel)) = some (.file c w) := by simpa using hfile
  -- every name on the way from `S ++ [p]` to the file is a directory
  have hdirS : ∀ {y z}, z ≠ [] → y ++ z = ps ++ n :: rel → fs.lookup (S ++ p :: y) = some .dir :=
    fun {y z} hz hyz => by
      simpa using lookup_dir_of_below (hwf.parents (S := S ++ [p]) (by simp)) hz
        (by rw [List.append_assoc, hyz]; simp [hfile'])
  have hSdir : fs.nodeAt S = some .dir := by
    simpa using hwf _ (mem_of_lookup_eq_some (hdirS (y := []) (z := ps ++ n :: rel) (by simp) rfl))
  have hign : ignorePaths yaml fs S true = .ok ([strRef dbtLogDirName, strRef dbtTargetDirName,
      strRef packageLockfileYml, strRef "profiles.yml"] ++ [strRef sub]) := by
    simp [ignorePaths, hsub, Except.map]
  obtain ⟨fs₁, hrun, hlinked, hkeep⟩ := createSymlinks_ok yaml fs true hS hSdir hT hTdir
    (fun _ => lookup_below_of_empty hempty (by simp)) hign
  have hSag : ∀ x q, q <+: S ++ x → fs₁.lookup q = fs.lookup q := fun x q hq =>
    hkeep q (ne_append_singleton_of_not_below (not_prefix_of_along hST.1 hST.2 hq))
  have hTag : ∀ q, q <+: T → fs₁.lookup q = fs.lookup q := fun q hq =>
    hkeep q (ne_append_singleton_of_above hq)
  have hT₁ : NoLinks fs₁ T := hT.of_agree hTag
  -- `p` is neither a name dbt writes nor the `str` `sub`: `T ++ [p]` links the folder
  have hne := ne_of_joinPath_eq_cons hjoin hps
  have hlink : fs₁.lookup (T ++ [p]) = some (.symlink (S ++ [p])) := by
    refine (hlinked p).trans (if_pos ⟨mem_keys_of_lookup (hdirS (y := []) (by simp) rfl), fun h => ?_⟩)
    simp only [List.mem_append, List.mem_cons, List.mem_singleton, List.not_mem_nil, or_false,
      strRef, Ref.val.injEq, Value.scalar.injEq, Scalar.str.injEq] at h hbase
    rcases h with h | h
    · exact hbase h
    · exact hne h.symm
  have hsrc : ∀ x, NoLinks fs₁ (S ++ p :: ps ++ x) := fun x =>
    (noLinks_below hpkg hlinks x).of_agree fun q hq => hSag (p :: ps ++ x) q (by simpa using hq)
  have hSp : NoLinks fs₁ (S ++ [p]) := NoLinks.of_prefix (hsrc []) (by simp)
  have hstat : ∀ y, fs₁.stat (T ++ p :: y) = fs₁.stat (S ++ p :: y) := fun y => by
    simpa [FS.stat] using congrArg (Option.bind · fs₁.nodeAt)
      (FS.resolve_through_link hT₁ hlink hSp 38 y)
  have hdirT : ∀ {y z}, z ≠ [] → y ++ z = ps ++ n :: rel → fs₁.stat (T ++ p :: y) = some .dir :=
    fun {y z} hz hyz => by
      have hnl : NoLinks fs₁ (S ++ p :: y) := NoLinks.of_prefix (hsrc (n :: rel))
        (by rw [List.append_assoc, List.cons_append, ← hyz]; simp)
      rw [hstat, FS.stat_of_noLinks hnl, FS.nodeAt_of_ne_nil (by simp), hSag _ _ List.prefix_rfl, hdirS hz hyz]
  -- the destination's parents are there, through the link
  obtain ⟨ps', q, rfl⟩ : ∃ ps' q, ps = ps' ++ [q] := ⟨_, _, (List.dropLast_append_getLast hps).symm⟩
  have hdst : T ++ p :: (ps' ++ [q]) = T ++ p :: ps' ++ [q] := by simp
  have hdir : fs₁.isDir (T ++ p :: (ps' ++ [q])).dropLast = true := by
    rw [hdst, List.dropLast_concat, FS.isDir_iff, hdirT (z := q :: n :: rel) (by simp) (by simp)]
  have hpar : fs₁.exists (T ++ p :: (ps' ++ [q])).dropLast.dropLast = true := by
    rw [hdst, List.dropLast_concat, FS.exists_eq_isSome_stat]
    rcases eq_or_ne ps' [] with rfl | hps'
    · have hTnode : fs₁.nodeAt T = fs.nodeAt T := by
        rw [FS.nodeAt_of_ne_nil hTne, FS.nodeAt_of_ne_nil hTne, hTag T List.prefix_rfl]
      simp [FS.stat_of_noLinks hT₁, hTnode, hTdir]
    · obtain ⟨ps'', r, rfl⟩ : ∃ ps'' r, ps' = ps'' ++ [r] := ⟨_, _, (List.dropLast_append_getLast hps').symm⟩
      rw [show T ++ p :: (ps'' ++ [r]) = T ++ p :: ps'' ++ [r] by simp, List.dropLast_concat,
        hdirT (z := r :: q :: n :: rel) (by simp) (by simp)]
      rfl
  refine ⟨fs₁, hrun, hlink, fun fs₂ h => ?_⟩
  rw [copyDbtPackages_of_str ((getDbtPackagesSubpath_congr yaml hSf (hSag _)).trans hsub), hjoin, hjoin] at h
  have halias : ∀ x, fs₁.resolve maxLinks (T ++ p :: (ps' ++ [q]) ++ x) =
      fs₁.resolve maxLinks (S ++ p :: (ps' ++ [q]) ++ x) := fun x => by
    simpa using FS.resolve_through_link hT₁ hlink hSp 38 (ps' ++ [q] ++ x)
  have hparents : ∀ x name, (fs₁.lookup (S ++ p :: (ps' ++ [q]) ++ x ++ [name])).isSome →
      fs₁.lookup (S ++ p :: (ps' ++ [q]) ++ x) = some .dir := fun x name h => by
    rw [hSag (p :: (ps' ++ [q]) ++ x) _ (by simp)]
    rw [hSag (p :: (ps' ++ [q]) ++ x ++ [name]) _ (by simp)] at h
    exact hwf.parents (S := S ++ p :: (ps' ++ [q])) (by simp) x name h
  exact copyPackagePaths_alias (by simp) hdir hpar halias hsrc hparents
    ((hSag (p :: (ps' ++ [q]) ++ n :: rel) _ (by simp)).trans hfile) fs₂ h

/-- A project whose `dbt_project.yml` sets `packages-install-path: vendor/dbt_packages`, with
    `dbt_utils` installed there, and an empty `/tmp`. -/
def nestedPackagesProject : FS String :=
  ⟨[(["project"], .dir), (["project", "dbt_project.yml"], .file "vendor/dbt_packages" true),
    (["project", "vendor"], .dir), (["project", "vendor", "dbt_packages"], .dir),
    (["project", "vendor", "dbt_packages", "dbt_utils"], .dir),
    (["project", "vendor", "dbt_packages", "dbt_utils", "dbt_project.yml"], .file "name: dbt_utils" true),
    (["tmp"], .dir)], by decide⟩

theorem createSymlinks_then_copyDbtPackages_vendored :
    ∃ fs₁, createSymlinks packagesPathYaml nestedPackagesProject ["project"] ["tmp"] true = .ok fs₁ ∧
      fs₁.lookup (["tmp"] ++ ["vendor"]) = some (.symlink (["project"] ++ ["vendor"])) ∧
      ∀ fs₂, copyDbtPackages packagesPathYaml 4 fs₁ ["project"] ["tmp"] ≠ .ok fs₂ :=
  createSymlinks_then_copyDbtPackages_nested_raises packagesPathYaml nestedPackagesProject
    (by decide) (by decide) (by decide) rfl (by decide) (by decide)
    (rfl : getDbtPackagesSubpath packagesPathYaml nestedPackagesProject ["project"] =
      .ok (strRef "vendor/dbt_packages"))
    (fun _ => rfl : ∀ base, joinPath base "vendor/dbt_packages" = base ++ ["vendor", "dbt_packages"])
    (by decide) (by decide) (by decide) (by decide)
    (rfl : nestedPackagesProject.lookup (["project"] ++ ["vendor", "dbt_packages"] ++
      ["dbt_utils", "dbt_project.yml"]) = some (.file "name: dbt_utils" true))

/-! ## Section 4: A second copy -/

/-- With a packages path of one plain name `p`, a `T` that holds neither the folder nor the
    lock file, and every file of the folder and the lock file with its write bit:
    `copy_dbt_packages(S, T)` run again on what it left changes nothing.
    `copytree(..., dirs_exist_ok=True)` finds every directory of the folder in place and
    copies each file over an equal one, and `shutil.copy2` does the same for the lock file.
    The copies keep the write bit of their sources, so without it the second run's writes
    raise `PermissionError` (`FS.copy_onto_readonly`). -/
theorem copyDbtPackages_idempotent (yaml : YamlCodec σ) (fs : FS σ) {p : String} {c : σ} {fuel : Nat}
    (hwf : fs.WellFormed) (hSf : NoLinks fs (S ++ [dbtProjectFilename]))
    (hsub : getDbtPackagesSubpath yaml fs S = .ok (strRef p))
    (hjoin : ∀ base, joinPath base p = base ++ [p])
    (hpdir : fs.lookup (S ++ [p]) = some .dir) (htree : fs.TreeBelow fuel (S ++ [p]))
    (hwritable : ∀ rel c w, fs.lookup (S ++ [p] ++ rel) = some (.file c w) → w = true)
    (hlock : fs.lookup (S ++ [packageLockfileYml]) = some (.file c true)) (hT : NoLinks fs T)
    (hTdir : fs.nodeAt T = some .dir)
    (hfree : ∀ e ∈ fs.entries, ¬ T ++ [p] <+: e.1 ∧ e.1 ≠ T ++ [packageLockfileYml])
    (hST : ¬ T <+: S ∧ ¬ S <+: T) :
    ∃ fs₂, copyDbtPackages yaml fuel fs S T = .ok fs₂ ∧ copyDbtPackages yaml fuel fs₂ S T = .ok fs₂ := by
  have hS := hSf.of_prefix (List.prefix_append S _)
  have hTne : T ≠ [] := fun e => hST.1 (e ▸ List.nil_prefix)
  have hSp : NoLinks fs (S ++ [p]) := hS.append_singleton (by simp [hpdir])
  have hSl : NoLinks fs (S ++ [packageLockfileYml]) := hS.append_singleton (by simp [hlock])
  -- Step 1: the first copy, into free names
  have hpre : fs.CopyPre fuel (S ++ [p]) (T ++ [p]) :=
    FS.CopyPre.of_treeBelow hwf hSp hpdir htree (by simpa using hT) (by simpa using hTdir) (by simp)
      (fun rel => lookup_eq_none_of_not_mem fun hm => by
        obtain ⟨e, he, he'⟩ := List.mem_map.mp hm
        exact (hfree e he).1 (he' ▸ List.prefix_append _ _))
      (fun h => hST.1 (prefix_of_append_singleton h)) (fun h => hST.2 (prefix_of_append_singleton h))
  have hlockfree : fs.lookup (T ++ [packageLockfileYml]) = none := lookup_eq_none_of_not_mem fun hm => by
    obtain ⟨e, he, he'⟩ := List.mem_map.mp hm
    exact (hfree e he).2 he'
  obtain ⟨fs₂, hcopy, htree₂, hlock₂, hframe⟩ := copyDbtPackages_fresh yaml hsub hjoin hpre
    (hwf.exists_dropLast hT hTdir) hST hSl hlock hlockfree
  refine ⟨fs₂, hcopy, ?_⟩
  -- Step 2: what the first copy left along `S` and above `T`
  have hSag : ∀ x q, q <+: S ++ x → fs₂.lookup q = fs.lookup q := fun x q hq =>
    hframe q (fun h => not_prefix_of_along hST.1 hST.2 hq ((List.prefix_append T [p]).trans h))
      (ne_append_singleton_of_not_below (not_prefix_of_along hST.1 hST.2 hq) _)
  have hTag : ∀ q, q <+: T → fs₂.lookup q = fs.lookup q := fun q hq =>
    hframe q (fun h => not_prefix_append_singleton T p (h.trans hq)) (ne_append_singleton_of_above hq _)
  have hT₂ : NoLinks fs₂ T := hT.of_agree hTag
  have hTdir₂ : fs₂.isDir T = true :=
    FS.isDir_of_lookup hT₂ hTne (by rw [hTag T List.prefix_rfl, ← FS.nodeAt_of_ne_nil hTne, hTdir])
  have hTpar₂ : fs₂.exists T.dropLast = true :=
    (FS.exists_dropLast_congr hT hTag).trans (hwf.exists_dropLast hT hTdir)
  -- Step 3: the second copy finds the folder and the lock file in place
  have hdone : fs₂.CopyDone fuel (S ++ [p]) (T ++ [p]) :=
    hpre.done hwritable (fun rel => by simpa using htree₂ rel)
      (fun x q hq => hSag ([p] ++ x) q (by simpa using hq))
      (fun q hq => hTag q (by simpa using hq))
  have hSl₂ : NoLinks fs₂ (S ++ [packageLockfileYml]) := hSl.of_agree (hSag _)
  have hlock₂' : fs₂.nodeAt (S ++ [packageLockfileYml]) = some (.file c true) := by
    rw [FS.nodeAt_of_ne_nil (by simp), hSag _ _ List.prefix_rfl, hlock]
  rw [copyDbtPackages_of_str ((getDbtPackagesSubpath_congr yaml hSf (hSag _)).trans hsub), hjoin, hjoin,
    copyPackagePaths_cons (by simpa using hTdir₂) (by simpa using hTpar₂),
    if_pos (FS.isDir_of_lookup (hSp.of_agree (hSag [p])) (by simp) (by rw [hSag [p] _ List.prefix_rfl, hpdir])),
    FS.copytree_done fuel fs₂ _ _ hdone]
  simp only [Except.bind]
  rw [copyPackagePaths_cons (by simpa using hTdir₂) (by simpa using hTpar₂),
    if_neg (by simp [FS.isDir, FS.stat_of_noLinks hSl₂, hlock₂']), FS.copy2,
    FS.copy_onto_same hSl₂ (hT₂.append_singleton (by simp [hlock₂]))
      hlock₂' (by rw [FS.nodeAt_of_ne_nil (by simp), hlock₂])
      (fun e => hST.2 (List.append_cancel_right e ▸ List.prefix_rfl))]
  rfl

/-- A project whose `dbt_project.yml` sets `packages-install-path: dbt_packages`, with
    `dbt_utils` installed there, its lock file, and an empty `/tmp`. -/
def pinnedPackagesProject : FS String :=
  ⟨[(["project"], .dir), (["project", "dbt_project.yml"], .file "dbt_packages" true),
    (["project", "dbt_packages"], .dir), (["project", "dbt_packages", "dbt_utils"], .dir),
    (["project", "dbt_packages", "dbt_utils", "dbt_project.yml"], .file "name: dbt_utils" true),
    (["project", "package-lock.yml"], .file "packages: []" true), (["tmp"], .dir)], by decide⟩

/-- Every file of `pinnedPackagesProject` has its write bit. -/
theorem pinnedPackagesProject_writable (p : Path) (c : String) (w : Bool)
    (h : pinnedPackagesProject.lookup p = some (.file c w)) : w = true := by
  have hmem := mem_of_lookup_eq_some h
  simp only [pinnedPackagesProject, List.mem_cons, Prod.mk.injEq, List.mem_nil_iff, or_false] at hmem
  rcases hmem with ⟨-, h⟩ | ⟨-, h⟩ | ⟨-, h⟩ | ⟨-, h⟩ | ⟨-, h⟩ | ⟨-, h⟩ | ⟨-, h⟩ <;>
    cases h <;> rfl

theorem copyDbtPackages_pinned_twice :
    ∃ fs₂, copyDbtPackages packagesPathYaml 3 pinnedPackagesProject ["project"] ["tmp"] = .ok fs₂ ∧
      copyDbtPackages packagesPathYaml 3 fs₂ ["project"] ["tmp"] = .ok fs₂ :=
  copyDbtPackages_idempotent packagesPathYaml pinnedPackagesProject (by decide) (by decide)
    (rfl : getDbtPackagesSubpath packagesPathYaml pinnedPackagesProject ["project"] =
      .ok (strRef "dbt_packages"))
    (fun _ => rfl) rfl (by decide) (fun rel => pinnedPackagesProject_writable _)
    (rfl : pinnedPackagesProject.lookup (["project"] ++ [packageLockfileYml]) = some (.file "packages: []" true))
    (by decide) rfl (by decide) (by decide)

end nested

end Cosmos
