import Cosmos.Fs.Shutil

/-! # `copytree` onto what is already there

    `copy_dbt_packages` calls `shutil.copytree(src, dst, dirs_exist_ok=True)`, so `dst`
    may already hold something. Two cases matter to the project helpers, and each is a
    whole run of the recursion of `FS.copytree`:

    * `FS.copytree_done`: onto a copy of `S` that an earlier run left (`FS.CopyDone`),
      `copytree` completes and changes nothing when every file below `S` has its write
      bit: every directory exists, and every file is written with the content and the
      bit it has. A file without the bit made its copy without it too, and the second
      copy's write raises `PermissionError` (`FS.copy_onto_readonly`);
    * `FS.copytree_alias_tree`: onto a path that leads where `S` does at every name
      below, `copytree` completes only when no file stands anywhere below `S`, and then
      changes nothing: each file is its own copy, which raises `SameFileError`.
-/

namespace Cosmos

variable {σ : Type}

/-! ## Section 1: Copying a file onto its copy -/

section same
variable {fs : FS σ}

/-- `shutil.copy` of a file onto another path that holds the same content, both with the
    write bit: the write and `copymode` put back what is there. -/
theorem FS.copy_onto_same {src dst : Path} {c : σ} (hs : NoLinks fs src) (hd : NoLinks fs dst)
    (hsc : fs.nodeAt src = some (.file c true)) (hdc : fs.nodeAt dst = some (.file c true))
    (hne : src ≠ dst) : fs.copy src dst = .ok fs := by
  have hdne : dst ≠ [] := fun e => by rw [e] at hdc; cases hdc
  have hnotdir : fs.isDir dst = false := by simp [FS.isDir, FS.stat_of_noLinks hd, hdc]
  have hput := FS.put_of_lookup_eq (by rwa [← FS.nodeAt_of_ne_nil hdne])
  have hmode := FS.copymode_of_noLinks hs hsc hd hdc
  simp [FS.copy, hnotdir, FS.copyfile, FS.sameFile, FS.resolve_maxLinks_of_noLinks hs,
    FS.resolve_maxLinks_of_noLinks hd, hne, FS.readFile, hsc, FS.writeFile, hdc, Except.bind, hput,
    Except.map, hmode]

/-- `shutil.copy` onto a file without the write bit raises `PermissionError`. -/
theorem FS.copy_onto_readonly {src dst : Path} {c c' : σ} {w : Bool} (hs : NoLinks fs src)
    (hd : NoLinks fs dst) (hsc : fs.nodeAt src = some (.file c w))
    (hdc : fs.nodeAt dst = some (.file c' false)) (hne : src ≠ dst) :
    fs.copy src dst = .error (.permissionError (pathStr dst)) := by
  have hnotdir : fs.isDir dst = false := by simp [FS.isDir, FS.stat_of_noLinks hd, hdc]
  simp [FS.copy, hnotdir, FS.copyfile, FS.sameFile, FS.resolve_maxLinks_of_noLinks hs,
    FS.resolve_maxLinks_of_noLinks hd, hne, FS.readFile, hsc, FS.writeFile, hdc, Except.bind,
    Except.map]

end same

/-! ## Section 2: What a copy leaves -/

/-- What a copy of `S` at `D` leaves, for `shutil.copytree(S, D, dirs_exist_ok=True)` run
    again: below `S` a tree with no links, every entry in a directory and none `fuel` or
    more names deep; at `D` the same entries as at `S`, in a directory with no link on its
    path; neither of `S`, `D` inside the other. -/
structure FS.CopyDone (fs : FS σ) (fuel : Nat) (S D : Path) : Prop where
  src_noLinks : ∀ rel, NoLinks fs (S ++ rel)
  src_dir : fs.lookup S = some .dir
  src_parents : ∀ rel name, (fs.lookup (S ++ rel ++ [name])).isSome →
    fs.lookup (S ++ rel) = some .dir
  depth : ∀ rel, (fs.lookup (S ++ rel)).isSome → rel.length < fuel
  dst_parent : NoLinks fs D.dropLast
  dst_parent_dir : fs.nodeAt D.dropLast = some .dir
  dst_ne : D ≠ []
  same : ∀ rel, fs.lookup (D ++ rel) = fs.lookup (S ++ rel)
  not_dst_src : ¬ D <+: S
  not_src_dst : ¬ S <+: D
  src_writable : ∀ rel c w, fs.lookup (S ++ rel) = some (.file c w) → w = true

section done
variable {fs : FS σ} {fuel : Nat} {S D : Path}

/-- Below `D` there is no link, as below `S`. -/
theorem FS.CopyDone.dst_noLinks (H : fs.CopyDone fuel S D) (rel : Path) : NoLinks fs (D ++ rel) := by
  have hD : NoLinks fs D := by
    rw [← List.dropLast_append_getLast H.dst_ne]
    refine H.dst_parent.append_singleton fun t => ?_
    rw [List.dropLast_append_getLast H.dst_ne, ← List.append_nil D, H.same, List.append_nil,
      H.src_dir]
    nofun
  intro q hq hne t
  rcases le_total q.length D.length with hl | hl
  · exact hD q (List.prefix_of_prefix_length_le hq (List.prefix_append D rel) hl) hne t
  · obtain ⟨x, rfl⟩ := List.prefix_of_prefix_length_le (List.prefix_append D rel) hq hl
    rw [H.same]
    by_cases hSx : S ++ x = []
    · obtain ⟨rfl, rfl⟩ := List.append_eq_nil.mp hSx
      rw [List.append_nil, H.src_dir]
      nofun
    · exact H.src_noLinks x _ List.prefix_rfl hSx t

/-- The state a copy leaves, for the copy of the directory `S ++ [n]` into `D ++ [n]`. -/
theorem FS.CopyDone.child (H : fs.CopyDone (fuel + 1) S D) {n : String}
    (hn : fs.lookup (S ++ [n]) = some .dir) : fs.CopyDone fuel (S ++ [n]) (D ++ [n]) where
  src_noLinks rel := by simpa using H.src_noLinks (n :: rel)
  src_dir := hn
  src_parents rel name h := by simpa using H.src_parents (n :: rel) name (by simpa using h)
  depth rel h := by simpa using H.depth (n :: rel) (by simpa using h)
  dst_parent := by simpa using H.dst_noLinks []
  dst_parent_dir := by simpa [FS.nodeAt_of_ne_nil H.dst_ne, H.src_dir] using H.same []
  dst_ne := by simp
  same rel := by simpa using H.same (n :: rel)
  not_dst_src h := H.not_dst_src (prefix_of_append_singleton h)
  not_src_dst h := H.not_src_dst (prefix_of_append_singleton h)
  src_writable rel c w h := H.src_writable (n :: rel) c w (by simpa using h)

/-- What `FS.copytree_fresh` leaves: a file system that holds at `D` what the first held at
    `S`, and agrees with it along `S` and along the directory of `D`, when every file below
    `S` has its write bit. -/
theorem FS.CopyPre.done (H : fs.CopyPre fuel S D) {fs' : FS σ}
    (hw : ∀ rel c w, fs.lookup (S ++ rel) = some (.file c w) → w = true)
    (hsame : ∀ rel, fs'.lookup (D ++ rel) = fs.lookup (S ++ rel))
    (hS : ∀ x q, q <+: S ++ x → fs'.lookup q = fs.lookup q)
    (hpar : ∀ q, q <+: D.dropLast → fs'.lookup q = fs.lookup q) : fs'.CopyDone fuel S D where
  src_noLinks rel := (H.src_noLinks rel).of_agree (hS rel)
  src_dir := by rw [hS [] S (by simp), H.src_dir]
  src_parents rel name h := by
    rw [hS (rel ++ [name]) _ (by simp)] at h
    rw [hS rel _ List.prefix_rfl]
    exact H.src_parents rel name h
  depth rel h := H.depth rel (by rwa [hS rel _ List.prefix_rfl] at h)
  dst_parent := H.dst_parent.of_agree hpar
  dst_parent_dir := by
    rcases eq_or_ne D.dropLast [] with h | h
    · rw [h]; rfl
    · rw [FS.nodeAt_of_ne_nil h, hpar _ List.prefix_rfl, ← FS.nodeAt_of_ne_nil h, H.dst_parent_dir]
  dst_ne := H.dst_ne
  same rel := by rw [hsame, hS rel _ List.prefix_rfl]
  not_dst_src := H.not_dst_src
  not_src_dst := H.not_src_dst
  src_writable rel c w h := hw rel c w (by rwa [hS rel _ List.prefix_rfl] at h)

end done

/-! ## Section 3: Copying again onto a copy -/

section again
variable {copyDir : FS σ → Path → Path → Except PyExc (FS σ)} {src dst : Path}

/-- The loop of `copytree` returns the file system it was given when each entry's copy does. -/
theorem copyEntries_of_ok {fs : FS σ} : ∀ names : List String,
    (∀ n ∈ names, copyEntry copyDir src dst fs n = .ok fs) →
    copyEntries copyDir src dst names fs false = .ok fs
  | [], _ => rfl
  | n :: rest, h => by
    rw [copyEntries_cons_of_ok (h n (List.mem_cons_self _ _))]
    exact copyEntries_of_ok rest fun m hm => h m (List.mem_cons_of_mem _ hm)

end again

/-- `shutil.copytree(S, D, dirs_exist_ok=True)` onto what a copy of `S` left at `D`:
    `os.makedirs` finds every directory, each file is written with its own content, and
    the file system is what it was. -/
theorem FS.copytree_done : ∀ (fuel : Nat) (fs : FS σ) (S D : Path), fs.CopyDone fuel S D →
    fs.copytree fuel S D = .ok fs
  | 0, _, _, _, H => absurd (H.depth [] (by simp [H.src_dir])) (Nat.not_lt_zero 0)
  | fuel + 1, fs, S, D, H => by
    have hSnl : NoLinks fs S := by simpa using H.src_noLinks []
    have hSnode : fs.nodeAt S = some .dir := by
      unfold FS.nodeAt; split <;> simp [H.src_dir]
    have hDnl : NoLinks fs D := by simpa using H.dst_noLinks []
    have hmk : fs.makedirs D = .ok fs := FS.makedirs_of_isDir
      (FS.isDir_of_lookup hDnl H.dst_ne (by simpa [H.src_dir] using H.same []))
      (by simp [FS.exists_eq_isSome_stat, FS.stat_of_noLinks H.dst_parent, H.dst_parent_dir])
    have hloop := @copyEntries_of_ok σ (FS.copytree fuel) S D fs
      (fs.entries.filterMap fun e => childName S e.1) fun n hn => by
        obtain ⟨node, hnode⟩ :=
          Option.isSome_iff_exists.mp (FS.lookup_isSome_iff.mpr (mem_listing.mp hn))
        have hnl : NoLinks fs (S ++ [n]) := H.src_noLinks [n]
        cases node with
        | dir =>
          rw [copyEntry, if_pos (FS.isDir_of_lookup hnl (by simp) hnode)]
          exact FS.copytree_done fuel fs _ _ (H.child hnode)
        | file c w =>
          obtain rfl : w = true := H.src_writable [n] c w hnode
          have hsc : fs.nodeAt (S ++ [n]) = some (.file c true) := by
            rw [FS.nodeAt_of_ne_nil (by simp), hnode]
          rw [copyEntry, if_neg (by simp [FS.isDir, FS.stat_of_noLinks hnl, hsc]), FS.copy2]
          exact FS.copy_onto_same hnl (H.dst_noLinks [n]) hsc
            (by rw [FS.nodeAt_of_ne_nil (by simp), H.same, hnode])
            fun e => H.not_dst_src (List.append_cancel_right e ▸ List.prefix_rfl)
        | symlink t => exact absurd hnode (H.src_noLinks [n] _ List.prefix_rfl (by simp) t)
    simp only [FS.copytree, FS.listdir_of_noLinks hSnl hSnode, hmk, Except.bind]
    exact hloop

/-! ## Section 4: Copying onto a link, all the way down -/

/-- `shutil.copytree` onto a path `D` that leads where `S` does at every name below, with no
    link below `S` and every entry there in a directory: it completes only when no file
    stands anywhere below `S`, and then changes nothing. -/
theorem FS.copytree_alias_tree {fs : FS σ} : ∀ (fuel : Nat) {S D : Path} {fs' : FS σ}, D ≠ [] →
    fs.exists D.dropLast = true →
    (∀ rel, fs.resolve maxLinks (D ++ rel) = fs.resolve maxLinks (S ++ rel)) →
    (∀ rel, NoLinks fs (S ++ rel)) →
    (∀ rel name, (fs.lookup (S ++ rel ++ [name])).isSome → fs.lookup (S ++ rel) = some .dir) →
    fs.copytree fuel S D = .ok fs' →
    fs' = fs ∧ ∀ n rel c w, fs.lookup (S ++ n :: rel) ≠ some (.file c w)
  | 0, _, _, _, _, _, _, _, _, h => by cases h
  | fuel + 1, S, D, fs', hD, hpar, halias, hS, hparents, h => by
    obtain ⟨names, hls, h⟩ := bind_eq_ok.mp h
    obtain ⟨fs₁, hmk, h⟩ := bind_eq_ok.mp h
    have h0 : fs.resolve maxLinks D = fs.resolve maxLinks S := by simpa using halias []
    have hDdir : fs.isDir D = true := by
      simpa only [FS.isDir, FS.stat, h0] using FS.isDir_of_listdir hls
    have hDex : fs.exists D = true := by simp [FS.exists_eq_isSome_stat, FS.isDir_iff.mp hDdir]
    rw [← List.dropLast_append_getLast hD, FS.makedirs_of_exists hpar,
      List.dropLast_append_getLast hD, FS.mkdirExistOk_of_isDir hDdir] at hmk
    cases hmk
    -- every entry below `S` is below one of the names listed
    have hnames : ∀ n rel, (fs.lookup (S ++ n :: rel)).isSome → n ∈ names := fun n rel h => by
      have hn : (fs.lookup (S ++ [] ++ [n])).isSome := by
        rcases eq_or_ne rel [] with rfl | hrel
        · simpa using h
        · simp [lookup_child_dir_of_parents hparents hrel h]
      have hSnode : fs.nodeAt S = some .dir := by
        unfold FS.nodeAt; split
        · rfl
        · simpa using hparents [] n hn
      rw [FS.listdir_of_noLinks (by simpa using hS []) hSnode] at hls
      cases hls
      exact mem_listing.mpr (FS.lookup_isSome_iff.mp (by simpa using hn))
    suffices loop : ∀ ns : List String, copyEntries (FS.copytree fuel) S D ns fs false = .ok fs' →
        fs' = fs ∧ ∀ n ∈ ns, ∀ rel c w, fs.lookup (S ++ n :: rel) ≠ some (.file c w) from
      ⟨(loop names h).1, fun n rel c w hc =>
        (loop names h).2 n (hnames n rel (by simp [hc])) rel c w hc⟩
    intro ns
    induction ns with
    | nil => exact fun h => ⟨(Except.ok.inj h).symm, by simp⟩
    | cons n rest ih =>
      intro h
      obtain ⟨fs₂, hn, hrest⟩ := copyEntries_cons_eq_ok h
      unfold copyEntry at hn
      split at hn
      · rename_i hdir
        obtain ⟨rfl, hbelow⟩ := FS.copytree_alias_tree fuel (by simp) (by simpa using hDex)
          (fun rel => by simpa using halias (n :: rel)) (fun rel => by simpa using hS (n :: rel))
          (fun rel name h => by simpa using hparents (n :: rel) name (by simpa using h)) hn
        refine ⟨(ih hrest).1, List.forall_mem_cons.mpr ⟨fun rel c w => ?_, (ih hrest).2⟩⟩
        rcases rel with _ | ⟨m, rel⟩
        · -- `S ++ [n]` itself is a directory
          intro hc
          rw [FS.isDir, FS.stat_of_noLinks (hS [n]), FS.nodeAt_of_ne_nil (by simp), hc] at hdir
          exact Bool.false_ne_true hdir
        · simpa using hbelow m rel c w
      · rename_i hfile
        obtain ⟨e, he⟩ := FS.copy_alias (by simpa using halias [n]) (by simpa using hfile)
        rw [FS.copy2, he] at hn
        cases hn

end Cosmos
