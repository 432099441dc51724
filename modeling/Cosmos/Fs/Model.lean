import Cosmos.Yaml.Value
import Mathlib.Data.List.Nodup
import Mathlib.Data.List.Infix

/-! # A file system with symbolic links

    The file system the project helpers work on: files, directories and symbolic links
    by absolute path. Opening, reading, writing, `stat` and `os.listdir` follow links
    in every name of a path, as the kernel does; `os.symlink` creates a link without
    following its own last name, and does not look at its target.

    A file keeps its owner's write bit. The helpers are taken to run as the owner of the
    files they touch and not as root, so opening a file whose bit is clear for writing
    raises `PermissionError`; a new file gets the bit (`0o666` under the usual `umask`).

    * `FS.resolve` is the path a path leads to, every link replaced by where its target
      leads; `fuel` bounds how deep links to links are followed (`ELOOP` past it);
    * `resolve_of_noLinks`: a path with no link on it leads to itself;
    * `resolve_link`: a link to such a path leads there.
-/

namespace Cosmos

/-! ## Section 1: Entries and paths -/

/-- An absolute path, as the names from the root. -/
abbrev Path := List String

/-- What stands at a path: a file with its content and its owner's write bit, a
    directory, or a symbolic link to an absolute path. -/
inductive Node (σ : Type) where
  | file (content : σ) (writable : Bool)
  | dir
  | symlink (target : Path)
  deriving DecidableEq

/-- The entries of a file system by path, in the order they were made; the root `[]` is
    a directory and has no entry. Each path has one entry. -/
structure FS (σ : Type) where
  entries : List (Path × Node σ)
  nodup : (entries.map Prod.fst).Nodup

/-- `str(path)`. -/
def pathStr (p : Path) : String := "/" ++ "/".intercalate p

variable {σ : Type}

/-- The entry at a path, links not followed (`os.lstat`). -/
def FS.lookup (fs : FS σ) (p : Path) : Option (Node σ) := fs.entries.lookup p

/-- The entry at a path reached by resolution: the root is a directory. -/
def FS.nodeAt (fs : FS σ) (r : Path) : Option (Node σ) := if r = [] then some .dir else fs.lookup r

/-- `path` gets the entry `n`: replaced where it stands, or added last. -/
def FS.put (fs : FS σ) (p : Path) (n : Node σ) : FS σ :=
  ⟨assign fs.entries p n, assign_keys_nodup fs.nodup p n⟩

theorem FS.lookup_put (fs : FS σ) (p q : Path) (n : Node σ) :
    (fs.put p n).lookup q = if q = p then some n else fs.lookup q :=
  lookup_assign _ _ _ _

@[simp] theorem FS.put_put (fs : FS σ) (p : Path) (n n' : Node σ) :
    (fs.put p n).put p n' = fs.put p n' := by
  simp [FS.put]

/-- Putting back the entry a path already has changes nothing. -/
theorem FS.put_of_lookup_eq {fs : FS σ} {p : Path} {n : Node σ} (h : fs.lookup p = some n) :
    fs.put p n = fs := by
  cases fs
  simp only [FS.put, FS.mk.injEq]
  exact assign_of_lookup_eq h

/-! ## Section 2: Resolution -/

/-- One name of a path: the entry `name` of the resolved directory `cur`, a link there
    followed by `follow`. -/
def FS.enter (fs : FS σ) (follow : Path → Option Path) (cur : Path) (name : String) :
    Option Path :=
  match fs.lookup (cur ++ [name]) with
  | some (.symlink t) => follow t
  | _ => some (cur ++ [name])

/-- The path `p` leads to, name by name from the root, with links to links followed
    `fuel` deep. -/
def FS.resolve (fs : FS σ) : Nat → Path → Option Path
  | 0, _ => none
  | fuel + 1, p => p.foldl (fun acc name => acc.bind fun cur => fs.enter (fs.resolve fuel) cur name)
      (some [])

/-- How deep links to links are followed (Linux's `MAXSYMLINKS`). -/
def maxLinks : Nat := 40

/-- No name on the path is a link. -/
def NoLinks (fs : FS σ) (p : Path) : Prop :=
  ∀ q, q <+: p → q ≠ [] → ∀ t, fs.lookup q ≠ some (.symlink t)

/-- Whether an entry is a link. -/
def Node.isLink : Node σ → Bool
  | .symlink _ => true
  | _ => false

theorem forall_ne_symlink_iff {o : Option (Node σ)} :
    (∀ t, o ≠ some (.symlink t)) ↔ o.any Node.isLink = false := by
  rcases o with _ | ⟨_ | _ | t⟩ <;> simp [Node.isLink]

instance (fs : FS σ) (p : Path) : Decidable (NoLinks fs p) :=
  decidable_of_iff (∀ q ∈ p.inits, q ≠ [] → (fs.lookup q).any Node.isLink = false) <| by
    simp only [List.mem_inits, ← forall_ne_symlink_iff]; rfl

theorem FS.enter_of_not_link {fs : FS σ} {follow : Path → Option Path} {cur : Path}
    {name : String} (h : ∀ t, fs.lookup (cur ++ [name]) ≠ some (.symlink t)) :
    fs.enter follow cur name = some (cur ++ [name]) := by
  unfold FS.enter
  split
  · exact absurd ‹_› (h _)
  · rfl

/-- Walking names that are no links from `cur` appends them. -/
theorem foldl_enter_of_noLinks (fs : FS σ) (follow : Path → Option Path) :
    ∀ (p cur : Path), (∀ q, q <+: p → q ≠ [] → ∀ t, fs.lookup (cur ++ q) ≠ some (.symlink t)) →
    p.foldl (fun acc name => acc.bind fun cur => fs.enter follow cur name) (some cur) =
      some (cur ++ p)
  | [], cur, _ => by simp
  | name :: p, cur, h => by
    rw [List.foldl_cons, Option.some_bind, FS.enter_of_not_link
      (h [name] (List.cons_prefix_cons.mpr ⟨rfl, List.nil_prefix⟩) (List.cons_ne_nil _ _)),
      foldl_enter_of_noLinks fs follow p _ fun q hq hne t => by
        simpa using h (name :: q) (List.cons_prefix_cons.mpr ⟨rfl, hq⟩) (List.cons_ne_nil _ _) t]
    simp

/-- A path with no link on it leads to itself. -/
theorem resolve_of_noLinks {fs : FS σ} {p : Path} (h : NoLinks fs p) (fuel : Nat) :
    fs.resolve (fuel + 1) p = some p := by
  simpa using foldl_enter_of_noLinks fs _ p [] fun q hq hne => by simpa using h q hq hne

/-- A link at `d ++ [name]`, in a directory `d` with no link on its path, to a path with
    no link on it, leads to its target. -/
theorem resolve_link {fs : FS σ} {d t : Path} {name : String} (hd : NoLinks fs d)
    (hl : fs.lookup (d ++ [name]) = some (.symlink t)) (ht : NoLinks fs t) (fuel : Nat) :
    fs.resolve (fuel + 2) (d ++ [name]) = some t := by
  have hfold := foldl_enter_of_noLinks fs (fs.resolve (fuel + 1)) d [] fun q hq hne => by
    simpa using hd q hq hne
  simp only [FS.resolve, List.foldl_append, List.nil_append] at hfold ⊢
  rw [hfold, List.foldl_cons, List.foldl_nil, Option.some_bind, FS.enter, hl]
  exact resolve_of_noLinks ht fuel

/-! ## Section 3: Operations -/

/-- `os.path.exists(p)`, `Path.exists()`: something stands where `p` leads. -/
def FS.exists (fs : FS σ) (p : Path) : Bool :=
  ((fs.resolve maxLinks p).bind fs.nodeAt).isSome

/-- `open(p).read()`: the content of the file `p` leads to. -/
def FS.readFile (fs : FS σ) (p : Path) : Except PyExc σ :=
  match fs.resolve maxLinks p with
  | none => .error (.raised "OSError")
  | some r =>
    match fs.nodeAt r with
    | some (.file c _) => .ok c
    | some _ => .error (.isADirectoryError (pathStr p))
    | none => .error (.fileNotFoundError (pathStr p))

/-- `open(p, "w")` and a write of `c`: the file `p` leads to gets the content `c`, when
    its write bit is set, and is made when it is missing from an existing directory. -/
def FS.writeFile (fs : FS σ) (p : Path) (c : σ) : Except PyExc (FS σ) :=
  match fs.resolve maxLinks p with
  | none => .error (.raised "OSError")
  | some r =>
    match fs.nodeAt r with
    | some (.file _ true) => .ok (fs.put r (.file c true))
    | some (.file _ false) => .error (.permissionError (pathStr p))
    | some _ => .error (.isADirectoryError (pathStr p))
    | none =>
      match fs.nodeAt r.dropLast with
      | some .dir => .ok (fs.put r (.file c true))
      | some _ => .error (.notADirectoryError (pathStr p))
      | none => .error (.fileNotFoundError (pathStr p))

/-- The name of `p` in the directory `d`, when `p` is an entry of `d`. -/
def childName (d p : Path) : Option String := if p.dropLast = d then p.getLast? else none

/-- `os.listdir(d)`: the names in the directory `d` leads to, in the order they were made. -/
def FS.listdir (fs : FS σ) (d : Path) : Except PyExc (List String) :=
  match fs.resolve maxLinks d with
  | none => .error (.raised "OSError")
  | some r =>
    match fs.nodeAt r with
    | some .dir => .ok (fs.entries.filterMap fun e => childName r e.1)
    | some _ => .error (.notADirectoryError (pathStr d))
    | none => .error (.fileNotFoundError (pathStr d))

/-- A new entry `n` at `dst`, in the directory `dst`'s other names lead to; `dst` must be
    free (its own last name is not followed). What `os.symlink` and `os.mkdir` share. -/
def FS.create (fs : FS σ) (dst : Path) (n : Node σ) : Except PyExc (FS σ) :=
  match dst.getLast?, fs.resolve maxLinks dst.dropLast with
  | none, _ => .error (.fileExistsError (pathStr dst))
  | _, none => .error (.raised "OSError")
  | some name, some parent =>
    match fs.nodeAt parent with
    | some .dir =>
      if (fs.lookup (parent ++ [name])).isSome then .error (.fileExistsError (pathStr dst))
      else .ok (fs.put (parent ++ [name]) n)
    | some _ => .error (.notADirectoryError (pathStr dst))
    | none => .error (.fileNotFoundError (pathStr dst))

/-- `os.symlink(src, dst)`: a link to `src` at `dst`; it does not look at `src`. -/
def FS.symlink (fs : FS σ) (src dst : Path) : Except PyExc (FS σ) := fs.create dst (.symlink src)

/-! ## Section 4: The operations on resolved paths

    Once a path leads to `r`, what each operation does depends on `r` alone. -/

section resolved
variable {fs : FS σ} {p r : Path}

theorem FS.resolve_maxLinks_of_noLinks (h : NoLinks fs p) : fs.resolve maxLinks p = some p :=
  resolve_of_noLinks h 39

theorem FS.exists_of_resolve (h : fs.resolve maxLinks p = some r) {n : Node σ}
    (hn : fs.nodeAt r = some n) : fs.exists p = true := by
  simp [FS.exists, h, hn]

theorem FS.readFile_of_file (h : fs.resolve maxLinks p = some r) {c : σ} {w : Bool}
    (hc : fs.nodeAt r = some (.file c w)) : fs.readFile p = .ok c := by
  simp [FS.readFile, h, hc]

/-- Writing through a path that leads to a file replaces that file's content when its
    write bit is set, and raises `PermissionError` naming the path when it is clear. -/
theorem FS.writeFile_of_file (h : fs.resolve maxLinks p = some r) {c₀ : σ} {w : Bool}
    (hc : fs.nodeAt r = some (.file c₀ w)) (c : σ) :
    fs.writeFile p c =
      if w then .ok (fs.put r (.file c true)) else .error (.permissionError (pathStr p)) := by
  cases w <;> simp [FS.writeFile, h, hc]

theorem childName_eq_some {d p : Path} {n : String} : childName d p = some n ↔ p = d ++ [n] := by
  rcases List.eq_nil_or_concat p with rfl | ⟨L, b, rfl⟩
  · simp [childName]
  · simp only [childName, List.concat_eq_append, List.dropLast_concat, List.getLast?_concat]
    by_cases h : L = d
    · subst h; simp
    · simp only [h, if_false]
      exact ⟨nofun, fun e => absurd (List.append_inj' e rfl).1 h⟩

/-- The names `os.listdir` gives for a directory with no link on its path. -/
theorem FS.listdir_of_noLinks {d : Path} (hd : NoLinks fs d) (hdir : fs.nodeAt d = some .dir) :
    fs.listdir d = .ok (fs.entries.filterMap fun e => childName d e.1) := by
  simp [FS.listdir, FS.resolve_maxLinks_of_noLinks hd, hdir]

theorem mem_listing {d : Path} {n : String} :
    n ∈ fs.entries.filterMap (fun e => childName d e.1) ↔ d ++ [n] ∈ fs.entries.map Prod.fst := by
  simp only [List.mem_filterMap, childName_eq_some, List.mem_map]

/-- A directory lists each name once: the paths of a file system are distinct. -/
theorem listing_nodup (d : Path) : (fs.entries.filterMap fun e => childName d e.1).Nodup := by
  rw [show (fun e : Path × Node σ => childName d e.1) = childName d ∘ Prod.fst from rfl,
    ← List.filterMap_map]
  exact List.Nodup.filterMap (fun a a' b ha ha' =>
    (childName_eq_some.mp ha).trans (childName_eq_some.mp ha').symm) fs.nodup

/-- A new entry in a directory with no link on its path, under a free name. -/
theorem FS.create_ok {d : Path} {name : String} (n : Node σ) (hd : NoLinks fs d)
    (hdir : fs.nodeAt d = some .dir) (hfree : fs.lookup (d ++ [name]) = none) :
    fs.create (d ++ [name]) n = .ok (fs.put (d ++ [name]) n) := by
  simp [FS.create, List.getLast?_concat, FS.resolve_maxLinks_of_noLinks hd, hdir, hfree]

/-- `os.symlink` into a directory with no link on its path, under a free name. -/
theorem FS.symlink_ok {d : Path} {name : String} (src : Path) (hd : NoLinks fs d)
    (hdir : fs.nodeAt d = some .dir) (hfree : fs.lookup (d ++ [name]) = none) :
    fs.symlink src (d ++ [name]) = .ok (fs.put (d ++ [name]) (.symlink src)) :=
  FS.create_ok _ hd hdir hfree

theorem FS.lookup_isSome_iff : (fs.lookup p).isSome ↔ p ∈ fs.entries.map Prod.fst :=
  lookup_isSome_iff_mem_keys _ _

theorem append_singleton_ne {T : Path} {n m : String} (h : n ≠ m) : T ++ [n] ≠ T ++ [m] :=
  fun e => h (List.singleton_inj.mp (List.append_cancel_left e))

theorem not_prefix_append_singleton (T : Path) (n : String) : ¬ T ++ [n] <+: T := fun h =>
  Nat.not_succ_le_self T.length (by simpa using h.length_le)

/-- A path along `S ++ x` lies outside `D`, when neither of `S`, `D` is inside the other. -/
theorem not_prefix_of_along {S D q x : Path} (h₁ : ¬ D <+: S) (h₂ : ¬ S <+: D)
    (hq : q <+: S ++ x) : ¬ D <+: q := fun hD => by
  have hDx := hD.trans hq
  rcases le_total D.length S.length with hl | hl
  · exact h₁ (List.prefix_of_prefix_length_le hDx (List.prefix_append S x) hl)
  · exact h₂ (List.prefix_of_prefix_length_le (List.prefix_append S x) hDx hl)

theorem ne_append_singleton_of_not_below {T q : Path} (hq : ¬ T <+: q) (n : String) :
    q ≠ T ++ [n] := fun e => hq (e ▸ List.prefix_append T [n])

theorem ne_append_singleton_of_above {T q : Path} (hq : q <+: T) (n : String) : q ≠ T ++ [n] :=
  fun e => not_prefix_append_singleton T n (e ▸ hq)

/-- A name that is no link, in a directory with no link on its path. -/
theorem NoLinks.append_singleton {d : Path} {name : String} (hd : NoLinks fs d)
    (hn : ∀ t, fs.lookup (d ++ [name]) ≠ some (.symlink t)) : NoLinks fs (d ++ [name]) :=
  fun q hq hne t => by
    rcases List.prefix_concat_iff.mp hq with rfl | hq
    · exact hn t
    · exact hd q hq hne t

theorem NoLinks.of_prefix (h : NoLinks fs p) {q : Path} (hq : q <+: p) : NoLinks fs q :=
  fun r hr => h r (hr.trans hq)

/-- A file system that agrees on the prefixes of a path keeps it free of links. -/
theorem NoLinks.of_agree (h : NoLinks fs p) {fs' : FS σ}
    (hag : ∀ q, q <+: p → fs'.lookup q = fs.lookup q) : NoLinks fs' p := fun q hq hne t => by
  rw [hag q hq]; exact h q hq hne t

/-- An entry that is no link keeps every path free of links. -/
theorem NoLinks.put_of_not_link (h : NoLinks fs p) (q : Path) {n : Node σ} (hn : n.isLink = false) :
    NoLinks (fs.put q n) p := fun q' hq' hne t => by
  rw [FS.lookup_put]
  split
  · rintro ⟨⟩; simp [Node.isLink] at hn
  · exact h q' hq' hne t

/-- An entry put off a path keeps it free of links. -/
theorem NoLinks.put (h : NoLinks fs p) {q : Path} (hq : ¬ q <+: p) (n : Node σ) :
    NoLinks (fs.put q n) p := fun q' hq' hne t => by
  rw [FS.lookup_put, if_neg fun (e : q' = q) => hq (e ▸ hq')]
  exact h q' hq' hne t

theorem FS.nodeAt_put_of_ne {q : Path} (hr : r ≠ q) (n : Node σ) :
    (fs.put q n).nodeAt r = fs.nodeAt r := by
  unfold FS.nodeAt
  split
  · rfl
  · rw [FS.lookup_put, if_neg hr]

end resolved

end Cosmos
