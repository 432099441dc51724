import Cosmos.Fs.Model

/-! # `os` and `shutil` on the file system

    What the project helpers call beyond `Cosmos.Fs.Model`: `os.mkdir`, `os.makedirs` and
    `Path.mkdir` with `exist_ok=True`, `shutil.copy`, `shutil.copy2`, `shutil.copytree`
    with `dirs_exist_ok=True`, `os.chdir` and `os.getcwd`, each as CPython writes it over
    the calls of `Cosmos.Fs.Model`. When a call raises, the file system it leaves is not
    modelled, only what it raises.

    * `FS.copytree_alias`: `copytree` onto a path that leads where its source does
      changes nothing, and completes only when every entry of the source is a directory;
      a file raises `SameFileError`, which the loop collects into `shutil.Error`;
    * `FS.copytree_fresh`: `copytree` of a tree with no links into a new directory copies
      every entry below it and changes nothing else.
-/

namespace Cosmos

variable {σ : Type}

/-! ## Section 1: Looking at a path -/

/-- `os.stat(p)`: the entry `p` leads to, links followed. -/
def FS.stat (fs : FS σ) (p : Path) : Option (Node σ) := (fs.resolve maxLinks p).bind fs.nodeAt

/-- `os.path.isdir(p)`, `Path.is_dir()`, `DirEntry.is_dir()`. -/
def FS.isDir (fs : FS σ) (p : Path) : Bool :=
  match fs.stat p with
  | some .dir => true
  | _ => false

/-- `os.path.samefile(a, b)` as `shutil` calls it: `False` when either `stat` fails. -/
def FS.sameFile (fs : FS σ) (a b : Path) : Bool :=
  match fs.resolve maxLinks a, fs.resolve maxLinks b with
  | some r, some r' => decide (r = r') && (fs.nodeAt r).isSome
  | _, _ => false

/-! ## Section 2: Making directories -/

/-- `os.mkdir(p)`. -/
def FS.mkdir (fs : FS σ) (p : Path) : Except PyExc (FS σ) := fs.create p .dir

/-- `os.mkdir(p)` under `exist_ok=True`: an error leaves an existing directory be (the
    `except OSError` of `os.makedirs` and of `Path.mkdir`). -/
def FS.mkdirExistOk (fs : FS σ) (p : Path) : Except PyExc (FS σ) :=
  match fs.mkdir p with
  | .ok fs' => .ok fs'
  | .error e => if fs.isDir p then .ok fs else .error e

/-- `os.makedirs(name, exist_ok=True)`, on the names of `name` last first: a missing
    parent is made first, its `FileExistsError` ignored. -/
def FS.makedirsRev (fs : FS σ) : List String → Except PyExc (FS σ)
  | [] => fs.mkdirExistOk []
  | name :: revHead =>
    let made : Except PyExc (FS σ) :=
      if fs.exists revHead.reverse then .ok fs
      else
        match fs.makedirsRev revHead with
        | .error (.fileExistsError _) => .ok fs
        | r => r
    made.bind fun fs₁ => fs₁.mkdirExistOk (revHead.reverse ++ [name])

/-- `os.makedirs(name, exist_ok=True)`. -/
def FS.makedirs (fs : FS σ) (name : Path) : Except PyExc (FS σ) := fs.makedirsRev name.reverse

/-- `Path(p).mkdir(parents=True, exist_ok=True)`, on the names of `p` last first: on
    `FileNotFoundError` the parent is made, then `p` again. -/
def FS.mkdirParentsRev (fs : FS σ) : List String → Except PyExc (FS σ)
  | [] => fs.mkdirExistOk []
  | name :: revHead =>
    match fs.mkdir (revHead.reverse ++ [name]) with
    | .error (.fileNotFoundError _) =>
      (fs.mkdirParentsRev revHead).bind fun fs₁ => fs₁.mkdirExistOk (revHead.reverse ++ [name])
    | _ => fs.mkdirExistOk (revHead.reverse ++ [name])

/-- `Path(p).mkdir(parents=True, exist_ok=True)`. -/
def FS.mkdirParents (fs : FS σ) (p : Path) : Except PyExc (FS σ) := fs.mkdirParentsRev p.reverse

/-! ## Section 3: Copying -/

/-- `shutil.copyfile(src, dst)`: the content of the file `src` leads to, written through
    `dst`; `SameFileError` when both lead to one file. -/
def FS.copyfile (fs : FS σ) (src dst : Path) : Except PyExc (FS σ) :=
  if fs.sameFile src dst then .error (.sameFileError (pathStr src) (pathStr dst))
  else (fs.readFile src).bind (fs.writeFile dst)

/-- `shutil.copymode(src, dst)` after a copy of the content: the file `dst` leads to gets
    the write bit of the file `src` leads to. The other cases, where `chmod` or `stat`
    would raise, do not follow a write that succeeded. -/
def FS.copymode (fs : FS σ) (src dst : Path) : FS σ :=
  match fs.stat src, fs.resolve maxLinks dst with
  | some (.file _ w), some r =>
    match fs.nodeAt r with
    | some (.file c _) => fs.put r (.file c w)
    | _ => fs
  | _, _ => fs

/-- `shutil.copy(src, dst)`: `copyfile` and then `copymode`, into `dst / basename(src)`
    when `dst` leads to a directory. -/
def FS.copy (fs : FS σ) (src dst : Path) : Except PyExc (FS σ) :=
  let dst := if fs.isDir dst then dst ++ [src.getLast?.getD ""] else dst
  (fs.copyfile src dst).map fun fs' => fs'.copymode src dst

/-- `shutil.copy2(src, dst)`: `shutil.copy` with `copystat` in place of `copymode`. Of what
    `copystat` copies the model keeps the write bit, which `copymode` copies too; the
    times it does not keep. -/
def FS.copy2 (fs : FS σ) (src dst : Path) : Except PyExc (FS σ) := fs.copy src dst

/-- One entry of the loop of `shutil._copytree`: a directory, links followed, is copied by
    `copyDir` (the recursive `copytree`), anything else by `shutil.copy2`. -/
def copyEntry (copyDir : FS σ → Path → Path → Except PyExc (FS σ)) (src dst : Path)
    (fs : FS σ) (name : String) : Except PyExc (FS σ) :=
  if fs.isDir (src ++ [name]) then copyDir fs (src ++ [name]) (dst ++ [name])
  else fs.copy2 (src ++ [name]) (dst ++ [name])

/-- The loop of `shutil._copytree` over the names of `src`. An entry that raises
    `shutil.Error` or an `OSError` (every exception of the modelled calls but
    `RecursionError`) is recorded in `failed` and the loop goes on; `shutil.Error` is
    raised at the end. `RecursionError` propagates. -/
def copyEntries (copyDir : FS σ → Path → Path → Except PyExc (FS σ)) (src dst : Path) :
    List String → FS σ → Bool → Except PyExc (FS σ)
  | [], fs, failed => if failed then .error .shutilError else .ok fs
  | name :: rest, fs, failed =>
    match copyEntry copyDir src dst fs name with
    | .ok fs' => copyEntries copyDir src dst rest fs' failed
    | .error .recursionError => .error .recursionError
    | .error _ => copyEntries copyDir src dst rest fs true

/-- `shutil.copytree(src, dst, dirs_exist_ok=True)`: list `src`, make `dst`, copy each
    entry. `fuel` is how deep the recursion goes before Python's recursion limit. -/
def FS.copytree : Nat → FS σ → Path → Path → Except PyExc (FS σ)
  | 0, _, _, _ => .error .recursionError
  | fuel + 1, fs, src, dst =>
    (fs.listdir src).bind fun names =>
      (fs.makedirs dst).bind fun fs₁ => copyEntries (FS.copytree fuel) src dst names fs₁ false

/-! ## Section 4: The working directory -/

/-- `os.chdir(path)`: the working directory becomes the directory `path` leads to. -/
def FS.chdir (fs : FS σ) (path : Path) : Except PyExc Path :=
  match fs.resolve maxLinks path with
  | none => .error (.raised "OSError")
  | some r =>
    match fs.nodeAt r with
    | some .dir => .ok r
    | some _ => .error (.notADirectoryError (pathStr path))
    | none => .error (.fileNotFoundError (pathStr path))

/-- `os.getcwd()` in the working directory `cwd`: `FileNotFoundError` once it is gone. -/
def FS.getcwd (fs : FS σ) (cwd : Path) : Except PyExc Path :=
  match fs.nodeAt cwd with
  | some .dir => .ok cwd
  | _ => .error (.fileNotFoundError "")

/-! ## Section 5: Paths that lead somewhere -/

section paths
variable {fs : FS σ} {p : Path}

theorem FS.exists_eq_isSome_stat : fs.exists p = (fs.stat p).isSome := rfl

theorem FS.stat_of_noLinks (h : NoLinks fs p) : fs.stat p = fs.nodeAt p := by
  rw [FS.stat, FS.resolve_maxLinks_of_noLinks h, Option.some_bind]

theorem FS.isDir_iff : fs.isDir p = true ↔ fs.stat p = some .dir := by
  rcases h : fs.stat p with _ | _ | _ | _ <;> simp [FS.isDir, h]

theorem FS.nodeAt_of_ne_nil (h : p ≠ []) : fs.nodeAt p = fs.lookup p := if_neg h

theorem FS.resolve_append_singleton (fuel : Nat) (d : Path) (name : String) :
    fs.resolve (fuel + 1) (d ++ [name]) =
      (fs.resolve (fuel + 1) d).bind fun cur => fs.enter (fs.resolve fuel) cur name := by
  simp only [FS.resolve, List.foldl_append, List.foldl_cons, List.foldl_nil]

/-- Below a link to a path with no link on it, a path leads where the same names below the
    target do. -/
theorem FS.resolve_through_link {d t : Path} {name : String} (hd : NoLinks fs d)
    (hl : fs.lookup (d ++ [name]) = some (.symlink t)) (ht : NoLinks fs t) (fuel : Nat)
    (rel : Path) : fs.resolve (fuel + 2) (d ++ name :: rel) = fs.resolve (fuel + 2) (t ++ rel) := by
  have hlink := resolve_link hd hl ht fuel
  have htarget := resolve_of_noLinks ht (fuel + 1)
  simp only [FS.resolve] at hlink htarget ⊢
  rw [show d ++ name :: rel = (d ++ [name]) ++ rel by simp, List.foldl_append, hlink,
    List.foldl_append, htarget]

/-- A last name that leads to an entry stands in its resolved directory. -/
theorem FS.lookup_isSome_of_enter {follow : Path → Option Path} {cur r : Path} {name : String}
    (h : fs.enter follow cur name = some r) {n : Node σ} (hn : fs.nodeAt r = some n) :
    (fs.lookup (cur ++ [name])).isSome := by
  unfold FS.enter at h
  split at h
  · simp [*]
  · cases h
    rw [FS.nodeAt_of_ne_nil (List.append_ne_nil_of_right_ne_nil cur (List.cons_ne_nil _ _))] at hn
    simp [hn]

/-- `os.mkdir` and `os.symlink` raise where something stands. -/
theorem FS.create_error_of_stat {m : Node σ} (h : fs.stat p = some m) (n : Node σ) :
    ∃ e, fs.create p n = .error e := by
  rcases List.eq_nil_or_concat p with rfl | ⟨d, name, rfl⟩
  · exact ⟨_, rfl⟩
  obtain ⟨r, hr, hm⟩ := Option.bind_eq_some.mp h
  rw [List.concat_eq_append, show maxLinks = 39 + 1 from rfl, FS.resolve_append_singleton] at hr
  obtain ⟨parent, hp, he⟩ := Option.bind_eq_some.mp hr
  have hp' : fs.resolve maxLinks d = some parent := hp
  have hs := FS.lookup_isSome_of_enter he hm
  simp only [FS.create, List.concat_eq_append, List.getLast?_concat, List.dropLast_concat, hp']
  split <;> simp [hs]

theorem FS.isDir_of_listdir {names : List String} (h : fs.listdir p = .ok names) :
    fs.isDir p = true := by
  unfold FS.listdir at h
  split at h
  · cases h
  · rename_i r hr
    split at h
    · simp [FS.isDir, FS.stat, hr, *]
    · cases h
    · cases h

theorem FS.mkdirExistOk_of_isDir (h : fs.isDir p = true) : fs.mkdirExistOk p = .ok fs := by
  obtain ⟨e, he⟩ := FS.create_error_of_stat (FS.isDir_iff.mp h) .dir
  simp [FS.mkdirExistOk, FS.mkdir, he, h]

theorem FS.mkdirExistOk_fresh {d : Path} {name : String} (hd : NoLinks fs d)
    (hdir : fs.nodeAt d = some .dir) (hfree : fs.lookup (d ++ [name]) = none) :
    fs.mkdirExistOk (d ++ [name]) = .ok (fs.put (d ++ [name]) .dir) := by
  simp [FS.mkdirExistOk, FS.mkdir, FS.create_ok _ hd hdir hfree]

/-- In an existing directory, `os.makedirs` is one `os.mkdir`. -/
theorem FS.makedirs_of_exists {d : Path} {name : String} (h : fs.exists d = true) :
    fs.makedirs (d ++ [name]) = fs.mkdirExistOk (d ++ [name]) := by
  simp [FS.makedirs, FS.makedirsRev, h, Except.bind]

/-- `os.makedirs` of an existing directory in an existing directory changes nothing. -/
theorem FS.makedirs_of_isDir (h : fs.isDir p = true) (hpar : fs.exists p.dropLast = true) :
    fs.makedirs p = .ok fs := by
  rcases List.eq_nil_or_concat p with rfl | ⟨d, name, rfl⟩
  · simp [FS.makedirs, FS.makedirsRev, FS.mkdirExistOk_of_isDir h]
  · simp only [List.concat_eq_append, List.dropLast_concat] at h hpar ⊢
    rw [FS.makedirs_of_exists hpar, FS.mkdirExistOk_of_isDir h]

/-- A path with no link on it reads the same in a file system that agrees along it. -/
theorem FS.stat_congr {fs' : FS σ} (h : NoLinks fs p) (hag : ∀ q, q <+: p → fs'.lookup q = fs.lookup q) :
    fs'.stat p = fs.stat p := by
  rw [FS.stat_of_noLinks h, FS.stat_of_noLinks (h.of_agree hag), FS.nodeAt, FS.nodeAt,
    hag p List.prefix_rfl]

/-- The directory a path with no link on it sits in exists in a file system that agrees
    along the path when it exists in the first. -/
theorem FS.exists_dropLast_congr {fs' : FS σ} (h : NoLinks fs p)
    (hag : ∀ q, q <+: p → fs'.lookup q = fs.lookup q) : fs'.exists p.dropLast = fs.exists p.dropLast := by
  rw [FS.exists_eq_isSome_stat, FS.exists_eq_isSome_stat, FS.stat_congr (h.of_prefix (List.dropLast_prefix p))
    fun q hq => hag q (hq.trans (List.dropLast_prefix p))]

theorem FS.isDir_of_lookup (h : NoLinks fs p) (hp : p ≠ []) (hdir : fs.lookup p = some .dir) :
    fs.isDir p = true := by
  simp [FS.isDir, FS.stat_of_noLinks h, FS.nodeAt_of_ne_nil hp, hdir]

/-- In an existing directory, `Path.mkdir(parents=True)` is one `os.mkdir`. -/
theorem FS.mkdirParents_of_isDir {d : Path} {name : String} (h : fs.isDir d = true) :
    fs.mkdirParents (d ++ [name]) = fs.mkdirExistOk (d ++ [name]) := by
  obtain ⟨r, hr, hn⟩ := Option.bind_eq_some.mp (FS.isDir_iff.mp h)
  have hmk : ∀ e, fs.mkdir (d ++ [name]) ≠ .error (.fileNotFoundError e) := fun e => by
    simp only [FS.mkdir, FS.create, List.getLast?_concat, List.dropLast_concat, hr, hn]
    split <;> nofun
  -- the last branch of the `match` applies: `hmk` discharges its side condition
  simp only [FS.mkdirParents, FS.mkdirParentsRev, List.reverse_append, List.reverse_cons,
    List.reverse_nil, List.nil_append, List.singleton_append, List.reverse_reverse]

/-- `copymode` between files with no link on their paths: the write bit of `src` goes to
    `dst`. -/
theorem FS.copymode_of_noLinks {src dst : Path} {c c' : σ} {w w' : Bool} (hs : NoLinks fs src)
    (hsc : fs.nodeAt src = some (.file c w)) (hd : NoLinks fs dst)
    (hdc : fs.nodeAt dst = some (.file c' w')) : fs.copymode src dst = fs.put dst (.file c' w) := by
  simp [FS.copymode, FS.stat_of_noLinks hs, hsc, FS.resolve_maxLinks_of_noLinks hd, hdc]

/-- `shutil.copy` of a file with no link on its path to a free name of a directory with no
    link on its path: a new file with the content and the write bit of the source. -/
theorem FS.copy_fresh {src d : Path} {name : String} {c : σ} {w : Bool} (hs : NoLinks fs src)
    (hc : fs.nodeAt src = some (.file c w)) (hd : NoLinks fs d) (hdir : fs.nodeAt d = some .dir)
    (hfree : fs.lookup (d ++ [name]) = none) :
    fs.copy src (d ++ [name]) = .ok (fs.put (d ++ [name]) (.file c w)) := by
  have hdne : d ++ [name] ≠ [] := List.append_ne_nil_of_right_ne_nil d (List.cons_ne_nil _ _)
  have hdst : NoLinks fs (d ++ [name]) := hd.append_singleton (by simp [hfree])
  have hnode : fs.nodeAt (d ++ [name]) = none := by rw [FS.nodeAt_of_ne_nil hdne, hfree]
  have hne : src ≠ d ++ [name] := fun e => by rw [e, hnode] at hc; cases hc
  have hnotdir : fs.isDir (d ++ [name]) = false := by simp [FS.isDir, FS.stat_of_noLinks hdst, hnode]
  have hwrite : fs.copyfile src (d ++ [name]) = .ok (fs.put (d ++ [name]) (.file c true)) := by
    simp [FS.copyfile, FS.sameFile, FS.resolve_maxLinks_of_noLinks hs,
      FS.resolve_maxLinks_of_noLinks hdst, hne, FS.readFile, hc, FS.writeFile, hnode, hdir, Except.bind]
  have hmode : (fs.put (d ++ [name]) (.file c true)).copymode src (d ++ [name]) =
      (fs.put (d ++ [name]) (.file c true)).put (d ++ [name]) (.file c w) :=
    FS.copymode_of_noLinks (hs.put_of_not_link _ rfl) (by rwa [FS.nodeAt_put_of_ne hne])
      (hdst.put_of_not_link _ rfl) (by rw [FS.nodeAt_of_ne_nil hdne, FS.lookup_put, if_pos rfl])
  simp [FS.copy, hnotdir, hwrite, hmode, Except.map]

/-- `shutil.copy` to a path that leads where its source does raises, unless the source
    leads to a directory. -/
theorem FS.copy_alias {src dst : Path} (h : fs.resolve maxLinks dst = fs.resolve maxLinks src)
    (hs : fs.isDir src = false) : ∃ e, fs.copy src dst = .error e := by
  have hd : fs.isDir dst = false := by simpa only [FS.isDir, FS.stat, h] using hs
  rw [FS.copy, hd, if_neg Bool.false_ne_true, FS.copyfile]
  rcases hr : fs.resolve maxLinks src with _ | r
  · simp [FS.sameFile, FS.readFile, h, hr, Except.bind, Except.map]
  · rcases hn : fs.nodeAt r with _ | m
    · simp [FS.sameFile, FS.readFile, h, hr, hn, Except.bind, Except.map]
    · simp [FS.sameFile, h, hr, hn, Except.map]

end paths

/-! ## Section 6: The loop of `copytree` -/

section copyLoop
variable {copyDir : FS σ → Path → Path → Except PyExc (FS σ)} {src dst : Path}

/-- Once an entry failed, the loop raises. -/
theorem copyEntries_failed : ∀ (names : List String) (fs fs' : FS σ),
    copyEntries copyDir src dst names fs true ≠ .ok fs'
  | [], _, _ => nofun
  | name :: rest, fs, fs' => by
    unfold copyEntries
    split
    · exact copyEntries_failed rest _ fs'
    · nofun
    · exact copyEntries_failed rest fs fs'

theorem copyEntries_cons_of_ok {name : String} {rest : List String} {fs fs₁ : FS σ}
    (h : copyEntry copyDir src dst fs name = .ok fs₁) :
    copyEntries copyDir src dst (name :: rest) fs false = copyEntries copyDir src dst rest fs₁ false := by
  rw [copyEntries, h]

/-- The loop completes only when each entry's copy does, in turn. -/
theorem copyEntries_cons_eq_ok {name : String} {rest : List String} {fs fs' : FS σ}
    (h : copyEntries copyDir src dst (name :: rest) fs false = .ok fs') :
    ∃ fs₁, copyEntry copyDir src dst fs name = .ok fs₁ ∧
      copyEntries copyDir src dst rest fs₁ false = .ok fs' := by
  unfold copyEntries at h
  split at h
  · exact ⟨_, ‹_›, h⟩
  · cases h
  · exact absurd h (copyEntries_failed rest fs fs')

end copyLoop

/-! ## Section 7: Copying a directory onto itself -/

/-- `shutil.copytree` onto a path `D` that leads where `S` does, at every name below: each
    entry is its own copy. It changes nothing, and completes only when every entry of `S`
    is a directory; a file raises `SameFileError`, collected into `shutil.Error`. -/
theorem FS.copytree_alias {fs : FS σ} : ∀ (fuel : Nat) {S D : Path} {fs' : FS σ}, D ≠ [] →
    fs.exists D.dropLast = true →
    (∀ rel, fs.resolve maxLinks (D ++ rel) = fs.resolve maxLinks (S ++ rel)) →
    fs.copytree fuel S D = .ok fs' →
    fs' = fs ∧ ∀ names, fs.listdir S = .ok names → ∀ n ∈ names, fs.isDir (S ++ [n]) = true
  | 0, _, _, _, _, _, _, h => by cases h
  | fuel + 1, S, D, fs', hD, hpar, halias, h => by
    obtain ⟨names, hls, h⟩ := bind_eq_ok.mp h
    obtain ⟨fs₁, hmk, h⟩ := bind_eq_ok.mp h
    have h0 : fs.resolve maxLinks D = fs.resolve maxLinks S := by simpa using halias []
    have hDdir : fs.isDir D = true := by
      simpa only [FS.isDir, FS.stat, h0] using FS.isDir_of_listdir hls
    have hDex : fs.exists D = true := by
      simp [FS.exists_eq_isSome_stat, FS.isDir_iff.mp hDdir]
    rw [← List.dropLast_append_getLast hD, FS.makedirs_of_exists hpar,
      List.dropLast_append_getLast hD, FS.mkdirExistOk_of_isDir hDdir] at hmk
    cases hmk
    -- each entry's copy leaves `fs` as it is, or raises
    suffices loop : ∀ ns : List String, copyEntries (FS.copytree fuel) S D ns fs false = .ok fs' →
        fs' = fs ∧ ∀ n ∈ ns, fs.isDir (S ++ [n]) = true from
      ⟨(loop names h).1, fun ns hns => by rw [hls] at hns; cases hns; exact (loop names h).2⟩
    intro ns
    induction ns with
    | nil => exact fun h => ⟨(Except.ok.inj h).symm, by simp⟩
    | cons n rest ih =>
      intro h
      obtain ⟨fs₂, hn, hrest⟩ := copyEntries_cons_eq_ok h
      unfold copyEntry at hn
      split at hn
      · obtain ⟨rfl, -⟩ := FS.copytree_alias fuel (by simp) (by simpa using hDex)
          (fun rel => by simpa using halias (n :: rel)) hn
        exact ⟨(ih hrest).1, List.forall_mem_cons.mpr ⟨‹_›, (ih hrest).2⟩⟩
      · rename_i hfile
        obtain ⟨e, he⟩ := FS.copy_alias (by simpa using halias [n]) (by simpa using hfile)
        rw [FS.copy2, he] at hn
        cases hn

/-! ## Section 8: Copying a tree into a new directory -/

/-- A path along the parent of `D` lies outside `D`. -/
theorem not_prefix_of_prefix_dropLast {D q : Path} (hD : D ≠ []) (hq : q <+: D.dropLast) :
    ¬ D <+: q := fun h => by
  have h₁ := h.length_le
  have h₂ := hq.length_le
  have h₃ := List.length_pos.mpr hD
  simp only [List.length_dropLast] at h₂
  omega

/-- Two names of one directory are apart. -/
theorem eq_of_append_singleton_below {D rel : Path} {m n : String}
    (h : D ++ [m] <+: D ++ n :: rel) : m = n :=
  (List.cons_prefix_cons.mp ((List.prefix_append_right_inj D).mp h)).1

theorem prefix_of_append_singleton {D S : Path} {n : String} (h : D ++ [n] <+: S ++ [n]) :
    D <+: S := by
  rcases List.prefix_concat_iff.mp h with h | h
  · exact (List.append_inj' h rfl).1 ▸ List.prefix_rfl
  · exact (List.prefix_append D [n]).trans h

/-- What `shutil.copytree(S, D)` needs to copy `S` into a new directory `D`: below `S` no
    links, every entry in a directory and none `fuel` or more names deep; `D` free, in a
    directory with no link on its path; neither of `S`, `D` inside the other. -/
structure FS.CopyPre (fs : FS σ) (fuel : Nat) (S D : Path) : Prop where
  src_noLinks : ∀ rel, NoLinks fs (S ++ rel)
  src_dir : fs.lookup S = some .dir
  src_parents : ∀ rel name, (fs.lookup (S ++ rel ++ [name])).isSome →
    fs.lookup (S ++ rel) = some .dir
  depth : ∀ rel, (fs.lookup (S ++ rel)).isSome → rel.length < fuel
  dst_parent : NoLinks fs D.dropLast
  dst_parent_dir : fs.nodeAt D.dropLast = some .dir
  dst_ne : D ≠ []
  dst_free : ∀ rel, fs.lookup (D ++ rel) = none
  not_dst_src : ¬ D <+: S
  not_src_dst : ¬ S <+: D

/-- `fs'` is `fs` with a copy at `D` of what `fs` holds at `S`. -/
def FS.Copied (fs fs' : FS σ) (S D : Path) : Prop :=
  (∀ rel, fs'.lookup (D ++ rel) = fs.lookup (S ++ rel)) ∧ ∀ q, ¬ D <+: q → fs'.lookup q = fs.lookup q

section fresh
variable {fs : FS σ} {fuel : Nat} {S D : Path}

/-- A file system that agrees with `fs` off `D` agrees with it along `S`. -/
theorem FS.CopyPre.src_agree (H : fs.CopyPre fuel S D) {fs' : FS σ}
    (hag : ∀ q, ¬ D <+: q → fs'.lookup q = fs.lookup q) (x : Path) :
    ∀ q, q <+: S ++ x → fs'.lookup q = fs.lookup q := fun q hq =>
  hag q (not_prefix_of_along H.not_dst_src H.not_src_dst hq)

/-- Where every entry below `S` stands in a directory, every name on the way from `S` down
    to an entry below it is a directory. -/
theorem lookup_dir_of_below
    (hpar : ∀ rel name, (fs.lookup (S ++ rel ++ [name])).isSome → fs.lookup (S ++ rel) = some .dir) :
    ∀ {y z : Path}, z ≠ [] → (fs.lookup (S ++ y ++ z)).isSome → fs.lookup (S ++ y) = some .dir := by
  intro y z hz h
  induction z using List.reverseRecOn with
  | nil => exact absurd rfl hz
  | append_singleton z x ih =>
    have hp := hpar (y ++ z) x (by simpa using h)
    rcases eq_or_ne z [] with rfl | hz'
    · simpa using hp
    · exact ih hz' (by simp [hp])

theorem lookup_child_dir_of_parents
    (hpar : ∀ rel name, (fs.lookup (S ++ rel ++ [name])).isSome → fs.lookup (S ++ rel) = some .dir)
    {n : String} {rel : Path} (hrel : rel ≠ []) (h : (fs.lookup (S ++ n :: rel)).isSome) :
    fs.lookup (S ++ [n]) = some .dir :=
  lookup_dir_of_below hpar hrel (by simpa using h)

theorem lookup_dir_of_parents
    (hpar : ∀ rel name, (fs.lookup (S ++ rel ++ [name])).isSome → fs.lookup (S ++ rel) = some .dir)
    {n : String} {rel : Path} (h : (fs.lookup (S ++ n :: rel)).isSome) : fs.lookup S = some .dir := by
  simpa using lookup_dir_of_below hpar (y := []) (List.cons_ne_nil n rel) (by simpa using h)

/-- Below `S`, the ancestors of an entry down to `S ++ [n]` are directories. -/
theorem FS.CopyPre.child_dir (H : fs.CopyPre fuel S D) {n : String} {rel : Path} (hrel : rel ≠ [])
    (h : (fs.lookup (S ++ n :: rel)).isSome) : fs.lookup (S ++ [n]) = some .dir :=
  lookup_child_dir_of_parents H.src_parents hrel h

theorem FS.CopyPre.lookup_child (H : fs.CopyPre fuel S D) {n : String} {rel : Path}
    (h : (fs.lookup (S ++ n :: rel)).isSome) : (fs.lookup (S ++ [n])).isSome := by
  rcases eq_or_ne rel [] with rfl | hrel
  · exact h
  · simp [H.child_dir hrel h]

/-- Once `D` is a directory, in a file system that agrees with `fs` off `D`, `D` has no
    link on its path. -/
theorem FS.CopyPre.dst_noLinks (H : fs.CopyPre fuel S D) {fs' : FS σ}
    (hag : ∀ q, ¬ D <+: q → fs'.lookup q = fs.lookup q) (hD : fs'.lookup D = some .dir) :
    NoLinks fs' D := by
  have hpar : NoLinks fs' D.dropLast := H.dst_parent.of_agree fun q hq =>
    hag q (not_prefix_of_prefix_dropLast H.dst_ne hq)
  rw [← List.dropLast_append_getLast H.dst_ne] at hD ⊢
  exact hpar.append_singleton (by rw [hD]; nofun)

/-- The precondition of the copy of the directory `S ++ [n]` into `D ++ [n]`, in a file
    system that agrees with `fs` off `D`, has made `D` a directory and is free below
    `D ++ [n]`. -/
theorem FS.CopyPre.child (H : fs.CopyPre (fuel + 1) S D) {fs' : FS σ} {n : String}
    (hag : ∀ q, ¬ D <+: q → fs'.lookup q = fs.lookup q) (hD : fs'.lookup D = some .dir)
    (hfree : ∀ rel, fs'.lookup (D ++ n :: rel) = none) (hn : fs.lookup (S ++ [n]) = some .dir) :
    fs'.CopyPre fuel (S ++ [n]) (D ++ [n]) := by
  have hS : ∀ rel, fs'.lookup (S ++ rel) = fs.lookup (S ++ rel) := fun rel =>
    H.src_agree hag rel _ List.prefix_rfl
  refine ⟨fun rel => ?_, by rw [hS, hn], fun rel name h => ?_, fun rel h => ?_, ?_, ?_, by simp,
    fun rel => by simpa using hfree rel, fun h => H.not_dst_src (prefix_of_append_singleton h),
    fun h => H.not_src_dst (prefix_of_append_singleton h)⟩
  · simpa using (H.src_noLinks (n :: rel)).of_agree (H.src_agree hag _)
  · simp only [List.append_assoc, List.singleton_append, List.cons_append, hS] at h ⊢
    simpa using H.src_parents (n :: rel) name (by simpa using h)
  · have := H.depth (n :: rel) (by simpa [hS] using h)
    simpa using this
  · simpa using H.dst_noLinks hag hD
  · simp [FS.nodeAt_of_ne_nil H.dst_ne, hD]

variable {copyDir : FS σ → Path → Path → Except PyExc (FS σ)}

/-- One entry `n` of the loop that copies `S` into the new directory `D`, directories by
    `copyDir`: only the paths below `D ++ [n]` change, to a copy of `S ++ [n]`. -/
theorem copyEntry_fresh (H : fs.CopyPre (fuel + 1) S D)
    (hcopy : ∀ (fs : FS σ) S D, fs.CopyPre fuel S D →
      ∃ fs', copyDir fs S D = .ok fs' ∧ fs.Copied fs' S D)
    {fsk : FS σ} {n : String} (hag : ∀ q, ¬ D <+: q → fsk.lookup q = fs.lookup q)
    (hD : fsk.lookup D = some .dir) (hfree : ∀ rel, fsk.lookup (D ++ n :: rel) = none)
    (hn : (fs.lookup (S ++ [n])).isSome) :
    ∃ fs', copyEntry copyDir S D fsk n = .ok fs' ∧ fsk.Copied fs' (S ++ [n]) (D ++ [n]) := by
  have hS : ∀ rel, fsk.lookup (S ++ rel) = fs.lookup (S ++ rel) := fun rel =>
    H.src_agree hag rel _ List.prefix_rfl
  have hnl : NoLinks fsk (S ++ [n]) := (H.src_noLinks [n]).of_agree (H.src_agree hag _)
  have hstat : fsk.stat (S ++ [n]) = fs.lookup (S ++ [n]) := by
    rw [FS.stat_of_noLinks hnl, FS.nodeAt_of_ne_nil (by simp), hS]
  obtain ⟨node, hnode⟩ := Option.isSome_iff_exists.mp hn
  cases node with
  | dir =>
    obtain ⟨fs', hrun, hc⟩ := hcopy fsk _ _ (H.child hag hD hfree hnode)
    exact ⟨fs', by rw [copyEntry, if_pos (by simp [FS.isDir, hstat, hnode]), hrun], hc⟩
  | file c =>
    have hput := FS.copy_fresh hnl (by rw [← FS.stat_of_noLinks hnl, hstat, hnode])
      (H.dst_noLinks hag hD) (by rw [FS.nodeAt_of_ne_nil H.dst_ne, hD]) (by simpa using hfree [])
    refine ⟨_, by rw [copyEntry, if_neg (by simp [FS.isDir, hstat, hnode]), FS.copy2, hput],
      fun rel => ?_, fun q hq => ?_⟩
    · rw [FS.lookup_put]
      rcases eq_or_ne rel [] with rfl | hrel
      · simp [hS, hnode]
      · -- a file has nothing below it
        have hbelow : fs.lookup (S ++ n :: rel) = none := Option.not_isSome_iff_eq_none.mp
          fun h => by rw [H.child_dir hrel h] at hnode; cases hnode
        rw [if_neg (by simpa using hrel)]
        simpa [hS, hbelow] using hfree rel
    · rw [FS.lookup_put, if_neg fun (e : q = D ++ [n]) => hq (e ▸ List.prefix_rfl)]
  | symlink t =>
    exact absurd hnode (H.src_noLinks [n] (S ++ [n]) List.prefix_rfl (by simp) t)

/-- The loop that copies `S` into the new directory `D`, over names of entries of `S`, from
    a file system that differs from `fs` with `D` made only below `D ++ [m]` for the names
    `m` already done. -/
theorem copyEntries_fresh (H : fs.CopyPre (fuel + 1) S D)
    (hcopy : ∀ (fs : FS σ) S D, fs.CopyPre fuel S D →
      ∃ fs', copyDir fs S D = .ok fs' ∧ fs.Copied fs' S D) :
    ∀ (todo : List String) (fsk : FS σ), todo.Nodup → (∀ n ∈ todo, (fs.lookup (S ++ [n])).isSome) →
    (∀ q, (∀ m, D ++ [m] <+: q → m ∈ todo) → fsk.lookup q = (fs.put D .dir).lookup q) →
    ∃ fs', copyEntries copyDir S D todo fsk false = .ok fs' ∧
      (∀ n ∈ todo, ∀ rel, fs'.lookup (D ++ n :: rel) = fs.lookup (S ++ n :: rel)) ∧
      ∀ q, (∀ n ∈ todo, ¬ D ++ [n] <+: q) → fs'.lookup q = fsk.lookup q
  | [], fsk, _, _, _ => ⟨fsk, rfl, by simp, fun _ _ => rfl⟩
  | n :: rest, fsk, hnd, hin, hJ => by
    obtain ⟨hn, hnd⟩ := List.nodup_cons.mp hnd
    have hput : ∀ q, q ≠ D → (fs.put D .dir).lookup q = fs.lookup q := fun q hq => by
      rw [FS.lookup_put, if_neg hq]
    have hag : ∀ q, ¬ D <+: q → fsk.lookup q = fs.lookup q := fun q hq => by
      rw [hJ q fun m hm => absurd ((List.prefix_append D [m]).trans hm) hq,
        hput q fun e => hq (e ▸ List.prefix_rfl)]
    have hD : fsk.lookup D = some .dir := by
      rw [hJ D fun m hm => absurd hm (not_prefix_append_singleton D m), FS.lookup_put, if_pos rfl]
    have hfree : ∀ rel, fsk.lookup (D ++ n :: rel) = none := fun rel => by
      rw [hJ _ fun m hm => eq_of_append_singleton_below hm ▸ List.mem_cons_self _ _,
        hput _ (by simp), H.dst_free]
    obtain ⟨fsn, hrun, hcn⟩ := copyEntry_fresh H hcopy hag hD hfree (hin n (List.mem_cons_self _ _))
    obtain ⟨fs', hrest, hcopies, hframe⟩ := copyEntries_fresh H hcopy rest fsn hnd
      (fun m hm => hin m (List.mem_cons_of_mem _ hm)) fun q hq => by
        rw [hcn.2 q fun h => hn (hq n h), hJ q fun m hm => List.mem_cons_of_mem _ (hq m hm)]
    refine ⟨fs', by rw [copyEntries_cons_of_ok hrun]; exact hrest, fun m hm rel => ?_,
      fun q hq => ?_⟩
    · rcases List.mem_cons.mp hm with rfl | hm
      · rw [hframe (D ++ m :: rel) fun k hk h => hn (eq_of_append_singleton_below h ▸ hk)]
        simpa [H.src_agree hag _ _ List.prefix_rfl] using hcn.1 rel
      · exact hcopies m hm rel
    · rw [hframe q fun m hm => hq m (List.mem_cons_of_mem _ hm), hcn.2 q (hq n (List.mem_cons_self _ _))]

/-- `shutil.copytree` of a tree with no links into a new directory: every entry below `S`
    gets its copy below `D`, and nothing outside `D` changes. -/
theorem FS.copytree_fresh : ∀ (fuel : Nat) (fs : FS σ) (S D : Path), fs.CopyPre fuel S D →
    ∃ fs', fs.copytree fuel S D = .ok fs' ∧ fs.Copied fs' S D
  | 0, _, _, _, H => absurd (H.depth [] (by simp [H.src_dir])) (Nat.not_lt_zero 0)
  | fuel + 1, fs, S, D, H => by
    have hS : S ≠ [] := fun h => H.not_src_dst (h ▸ List.nil_prefix)
    have hls := FS.listdir_of_noLinks (by simpa using H.src_noLinks [])
      (by rw [FS.nodeAt_of_ne_nil hS, H.src_dir])
    have hpar : fs.exists D.dropLast = true := by
      simp [FS.exists_eq_isSome_stat, FS.stat_of_noLinks H.dst_parent, H.dst_parent_dir]
    have hmk : fs.makedirs D = .ok (fs.put D .dir) := by
      have hfree : fs.lookup (D.dropLast ++ [D.getLast H.dst_ne]) = none := by
        simpa [List.dropLast_append_getLast H.dst_ne] using H.dst_free []
      rw [← List.dropLast_append_getLast H.dst_ne, FS.makedirs_of_exists hpar,
        FS.mkdirExistOk_fresh H.dst_parent H.dst_parent_dir hfree]
    have hput : ∀ q, q ≠ D → (fs.put D .dir).lookup q = fs.lookup q := fun q hq => by
      rw [FS.lookup_put, if_neg hq]
    obtain ⟨fs', hrun, hcopies, hframe⟩ := copyEntries_fresh H (FS.copytree_fresh fuel) _ _
      (listing_nodup S) (fun n hn => FS.lookup_isSome_iff.mpr (mem_listing.mp hn)) fun _ _ => rfl
    refine ⟨fs', by simp only [FS.copytree, hls, hmk, Except.bind]; exact hrun, fun rel => ?_,
      fun q hq => ?_⟩
    · rcases rel with _ | ⟨n, rel⟩
      · rw [hframe (D ++ []) fun n _ h => not_prefix_append_singleton D n (by simpa using h)]
        simp [FS.lookup_put, H.src_dir]
      · by_cases hn : n ∈ fs.entries.filterMap fun e => childName S e.1
        · exact hcopies n hn rel
        · have hbelow : fs.lookup (S ++ n :: rel) = none := Option.not_isSome_iff_eq_none.mp
            fun h => hn (mem_listing.mpr (FS.lookup_isSome_iff.mp (H.lookup_child h)))
          rw [hframe (D ++ n :: rel) fun m hm h => hn (eq_of_append_singleton_below h ▸ hm),
            hput _ (by simp),
            H.dst_free, hbelow]
    · rw [hframe q fun n _ h => hq ((List.prefix_append D [n]).trans h),
        hput q fun e => hq (e ▸ List.prefix_rfl)]

/-- Every entry stands in a directory, as in any file system the kernel keeps. -/
def FS.WellFormed (fs : FS σ) : Prop := ∀ e ∈ fs.entries, fs.nodeAt e.1.dropLast = some .dir

instance [DecidableEq σ] (fs : FS σ) : Decidable fs.WellFormed :=
  inferInstanceAs (Decidable (∀ e ∈ fs.entries, fs.nodeAt e.1.dropLast = some .dir))

/-- Below `S` no entry is a link, and none lies `fuel` or more names deep. -/
def FS.TreeBelow (fs : FS σ) (fuel : Nat) (S : Path) : Prop :=
  ∀ e ∈ fs.entries, S <+: e.1 → e.2.isLink = false ∧ e.1.length < S.length + fuel

instance (fs : FS σ) (fuel : Nat) (S : Path) : Decidable (fs.TreeBelow fuel S) :=
  inferInstanceAs (Decidable (∀ e ∈ fs.entries, S <+: e.1 →
    e.2.isLink = false ∧ e.1.length < S.length + fuel))

/-- In a well-formed file system, the directory of a directory exists. -/
theorem FS.WellFormed.exists_dropLast (hwf : fs.WellFormed) (hD : NoLinks fs D)
    (hDdir : fs.nodeAt D = some .dir) : fs.exists D.dropLast = true := by
  have hpar := hD.of_prefix (List.dropLast_prefix D)
  rcases eq_or_ne D [] with rfl | hne
  · rfl
  rw [FS.nodeAt_of_ne_nil hne] at hDdir
  simp [FS.exists_eq_isSome_stat, FS.stat_of_noLinks hpar, hwf _ (mem_of_lookup_eq_some hDdir)]

/-- The precondition holds in any file system that agrees along `S` and `D`. -/
theorem FS.CopyPre.congr (H : fs.CopyPre fuel S D) {fs' : FS σ}
    (hS : ∀ x q, q <+: S ++ x → fs'.lookup q = fs.lookup q)
    (hD : ∀ x q, q <+: D ++ x → fs'.lookup q = fs.lookup q) : fs'.CopyPre fuel S D where
  src_noLinks rel := (H.src_noLinks rel).of_agree (hS rel)
  src_dir := by rw [hS [] S (by simp), H.src_dir]
  src_parents rel name h := by
    rw [hS (rel ++ [name]) _ (by simp)] at h
    rw [hS rel _ List.prefix_rfl]
    exact H.src_parents rel name h
  depth rel h := H.depth rel (by rwa [hS rel _ List.prefix_rfl] at h)
  dst_parent := H.dst_parent.of_agree fun q hq =>
    hD [] q (by simpa using hq.trans (List.dropLast_prefix D))
  dst_parent_dir := by
    rcases eq_or_ne D.dropLast [] with h | h
    · rw [h]; rfl
    · rw [FS.nodeAt_of_ne_nil h, hD [] _ (by simpa using List.dropLast_prefix D),
        ← FS.nodeAt_of_ne_nil h, H.dst_parent_dir]
  dst_ne := H.dst_ne
  dst_free rel := by rw [hD rel _ List.prefix_rfl, H.dst_free]
  not_dst_src := H.not_dst_src
  not_src_dst := H.not_src_dst

/-- The precondition of `FS.copytree_fresh` for a directory `S` with no link on its path and
    a tree with no links below it, in a well-formed file system. -/
theorem FS.CopyPre.of_treeBelow (hwf : fs.WellFormed) (hS : NoLinks fs S)
    (hSdir : fs.lookup S = some .dir) (htree : fs.TreeBelow fuel S) (hD : NoLinks fs D.dropLast)
    (hDdir : fs.nodeAt D.dropLast = some .dir) (hDne : D ≠ []) (hfree : ∀ rel, fs.lookup (D ++ rel) = none)
    (h₁ : ¬ D <+: S) (h₂ : ¬ S <+: D) : fs.CopyPre fuel S D where
  src_noLinks rel q hq hne t hl := by
    rcases le_total q.length S.length with hlen | hlen
    · exact hS q (List.prefix_of_prefix_length_le hq (List.prefix_append S rel) hlen) hne t hl
    · have := (htree _ (mem_of_lookup_eq_some hl)
        (List.prefix_of_prefix_length_le (List.prefix_append S rel) hq hlen)).1
      simp [Node.isLink] at this
  src_dir := hSdir
  src_parents rel name h := by
    obtain ⟨n, hn⟩ := Option.isSome_iff_exists.mp h
    have hw := hwf _ (mem_of_lookup_eq_some hn)
    have hSne : S ≠ [] := fun e => h₂ (e ▸ List.nil_prefix)
    rwa [List.dropLast_concat, FS.nodeAt_of_ne_nil (by simp [hSne])] at hw
  depth rel h := by
    obtain ⟨n, hn⟩ := Option.isSome_iff_exists.mp h
    have := (htree _ (mem_of_lookup_eq_some hn) (List.prefix_append S rel)).2
    simp only [List.length_append] at this
    omega
  dst_parent := hD
  dst_parent_dir := hDdir
  dst_ne := hDne
  dst_free := hfree
  not_dst_src := h₁
  not_src_dst := h₂

end fresh

end Cosmos
