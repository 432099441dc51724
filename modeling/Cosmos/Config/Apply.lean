import Cosmos.Config.Tree
import Mathlib.Data.List.Nodup

/-! # The apply loop on views

    `apply_project_keys_to_dbt_project_yml` calls `_set_nested_key` once per entry of
    `project_keys`, in iteration order. What a config shows at each dotted path is its
    `View`: nothing, a dict, or a non-dict value. Two configs with the same view are the
    same mapping as Python's `==` compares dicts, insertion order unseen.

    One write `(p, w)` changes a view as `Op.step` says: at and below `p` the view of
    `w`, above `p` a dict, elsewhere what was there. A step reads the old view at a path
    only to keep it, and from that one observation, for the loop `runView`:

    * a path incomparable with every written path keeps its value
      (`runView_of_incomparable`), and any other path ends the same from every start
      (`runView_const`), so running the loop twice is running it once
      (`runView_idempotent`);
    * a write that no later write can reach survives, with dicts on its way
      (`runView_last_write`);
    * for prefix-free writes the order does not matter (`runView_perm`).

    The tree model refines `runView` (`applyPaths_view`), and so does the heap of
    `Cosmos.Config.Graph` on the objects the keys walk through.
-/

namespace Cosmos

/-! ## Section 1: Views and writes -/

/-- What a config shows at each dotted path: nothing, a dict (whose entries are what the
    longer paths show), or a non-dict value. -/
abbrev View := List Scalar → Option Value

/-- A value with a dict's entries forgotten: what a view shows at one path. -/
def Value.shape : Value → Value
  | .dict _ => .dict []
  | v => v

/-- The view of a tree. -/
def Value.view (v : Value) : View := fun q => (v.lookup q).map Value.shape

/-- One write of the loop: the segments of a key and the converted value. -/
abbrev Op := List Scalar × Value

/-- Two paths neither of which is a prefix of the other. -/
def Incomparable (p q : List Scalar) : Prop := ¬ p <+: q ∧ ¬ q <+: p

theorem Incomparable.symm {p q : List Scalar} (h : Incomparable p q) : Incomparable q p :=
  ⟨h.2, h.1⟩

/-- A path incomparable with `p` is incomparable with every extension of `p`. -/
theorem Incomparable.append {a p : List Scalar} (h : Incomparable a p) (u : List Scalar) :
    Incomparable a (p ++ u) :=
  ⟨fun ha => (List.prefix_or_prefix_of_prefix ha (List.prefix_append p u)).elim h.1 h.2,
    fun hp => h.2 ((List.prefix_append p u).trans hp)⟩

/-- What the write `(p, w)` makes of a view. -/
def Op.step (op : Op) (V : View) : View := fun q =>
  if op.1 <+: q then op.2.view (q.drop op.1.length)
  else if q <+: op.1 then some (.dict [])
  else V q

/-- The loop on views: the writes applied in order. -/
def runView (ops : List Op) (V : View) : View := ops.foldl (fun V op => op.step V) V

@[simp] theorem runView_nil (V : View) : runView [] V = V := rfl

@[simp] theorem runView_cons (op : Op) (ops : List Op) (V : View) :
    runView (op :: ops) V = runView ops (op.step V) := rfl

theorem runView_append (ops ops' : List Op) (V : View) :
    runView (ops ++ ops') V = runView ops' (runView ops V) :=
  List.foldl_append _ _ _ _

/-! ## Section 2: What the loop leaves at one path -/

section
variable {op : Op} {ops : List Op} {q : List Scalar}

theorem Op.step_of_incomparable (h : Incomparable op.1 q) (V : View) : op.step V q = V q := by
  simp [Op.step, h.1, h.2]

/-- A step reads the old view at `q` only to keep it. -/
theorem Op.step_congr {V V' : View} (h : V q = V' q) : op.step V q = op.step V' q := by
  simp only [Op.step, h]

/-- At a path comparable with the written one, a step forgets the old view. -/
theorem Op.step_const (h : ¬ Incomparable op.1 q) (V V' : View) : op.step V q = op.step V' q := by
  unfold Incomparable at h
  simp only [Op.step]
  split_ifs <;> tauto

theorem runView_congr {V V' : View} (h : V q = V' q) : runView ops V q = runView ops V' q := by
  induction ops generalizing V V' with
  | nil => exact h
  | cons op ops ih => exact ih (Op.step_congr h)

/-- A path incomparable with every written path keeps its value. -/
theorem runView_of_incomparable (h : ∀ op ∈ ops, Incomparable op.1 q) (V : View) :
    runView ops V q = V q := by
  induction ops generalizing V with
  | nil => rfl
  | cons op ops ih =>
    rw [runView_cons, ih (fun o ho => h o (.tail _ ho)), Op.step_of_incomparable (h op (.head _))]

/-- A path comparable with some written path ends the same from every start. -/
theorem runView_const (h : ∃ op ∈ ops, ¬ Incomparable op.1 q) (V V' : View) :
    runView ops V q = runView ops V' q := by
  induction ops generalizing V V' with
  | nil => simp at h
  | cons op ops ih =>
    rw [runView_cons, runView_cons]
    by_cases hop : Incomparable op.1 q
    · obtain ⟨o, ho, hinc⟩ := h
      exact ih ⟨o, (List.mem_cons.mp ho).resolve_left (by rintro rfl; exact hinc hop), hinc⟩ _ _
    · exact runView_congr (Op.step_const hop V V')

/-- The loop is idempotent: running it on its own result changes no path. -/
theorem runView_idempotent (ops : List Op) (V : View) : runView ops (runView ops V) = runView ops V := by
  funext q
  by_cases h : ∀ op ∈ ops, Incomparable op.1 q
  · exact runView_of_incomparable h _
  · push_neg at h
    exact runView_const h _ _

/-- A dict at `q` stays one under writes none of whose paths is a prefix of `q`. -/
theorem runView_dict (h : ∀ op ∈ ops, ¬ op.1 <+: q) {V : View} (hq : V q = some (.dict [])) :
    runView ops V q = some (.dict []) := by
  induction ops generalizing V with
  | nil => exact hq
  | cons op ops ih =>
    refine ih (fun o ho => h o (.tail _ ho)) ?_
    simp only [Op.step, if_neg (h op (.head _))]
    split <;> simp [hq]

/-- A write that no later write can reach survives: below its path is the view of its
    value, and every proper prefix of its path holds a dict. -/
theorem runView_last_write (pre post : List Op) (p : List Scalar) (w : Value)
    (hpost : ∀ op ∈ post, Incomparable op.1 p) (V : View) :
    (∀ u, runView (pre ++ (p, w) :: post) V (p ++ u) = w.view u) ∧
      ∀ q, q <+: p → q ≠ p → runView (pre ++ (p, w) :: post) V q = some (.dict []) := by
  rw [runView_append, runView_cons]
  refine ⟨fun u => ?_, fun q hq hne => ?_⟩
  · rw [runView_of_incomparable fun op ho => (hpost op ho).append u]
    simp [Op.step]
  · refine runView_dict (fun op ho hop => (hpost op ho).1 (hop.trans hq)) ?_
    have hpq : ¬ p <+: q := fun h => hne (hq.eq_of_length (le_antisymm hq.length_le h.length_le))
    simp [Op.step, hpq, hq]

end

/-! ## Section 3: Order independence -/

/-- No written path is a prefix of another (so in particular no path is written twice). -/
def PrefixFree (ops : List Op) : Prop := ops.Pairwise fun a b => Incomparable a.1 b.1

/-- In a prefix-free run, every write survives. -/
theorem runView_of_mem {ops : List Op} (hpf : PrefixFree ops) {p : List Scalar} {w : Value}
    (hmem : (p, w) ∈ ops) (V : View) :
    (∀ u, runView ops V (p ++ u) = w.view u) ∧
      ∀ q, q <+: p → q ≠ p → runView ops V q = some (.dict []) := by
  obtain ⟨pre, post, rfl⟩ := List.append_of_mem hmem
  exact runView_last_write pre post p w (fun op ho =>
    ((List.pairwise_cons.mp (List.pairwise_append.mp hpf).2.1).1 op ho).symm) V

/-- Prefix-free writes give the same view in every order. -/
theorem runView_perm {ops ops' : List Op} (hpf : PrefixFree ops) (hperm : ops.Perm ops')
    (V : View) : runView ops V = runView ops' V := by
  have hpf' : PrefixFree ops' := hperm.pairwise hpf fun h => h.symm
  have hmem : ∀ {op}, op ∈ ops → op ∈ ops' := fun h => hperm.subset h
  funext q
  by_cases hA : ∃ op ∈ ops, op.1 <+: q
  · -- `q` runs through a written path: both sides look inside the written value
    obtain ⟨⟨p, w⟩, ho, u, rfl⟩ := hA
    rw [(runView_of_mem hpf ho V).1, (runView_of_mem hpf' (hmem ho) V).1]
  by_cases hB : ∃ op ∈ ops, q <+: op.1
  · -- `q` is a proper prefix of a written path: a dict on both sides
    obtain ⟨⟨p, w⟩, ho, hq⟩ := hB
    have hqp : q ≠ p := fun h => hA ⟨_, ho, h ▸ List.prefix_rfl⟩
    rw [(runView_of_mem hpf ho V).2 q hq hqp, (runView_of_mem hpf' (hmem ho) V).2 q hq hqp]
  · -- `q` is incomparable with every write: both sides keep the start
    push_neg at hA hB
    have hinc : ∀ op ∈ ops, Incomparable op.1 q := fun op ho => ⟨hA op ho, hB op ho⟩
    rw [runView_of_incomparable hinc,
      runView_of_incomparable fun op ho => hinc op (hperm.symm.subset ho)]

/-! ## Section 4: The tree model refines views -/

/-- The loop on the tree view: the writes applied in order to the root dict. -/
def applyPaths (ops : List Op) (e : Entries) : Entries :=
  ops.foldl (fun e op => setAtPath op.1 op.2 e) e

@[simp] theorem applyPaths_cons (op : Op) (ops : List Op) (e : Entries) :
    applyPaths (op :: ops) e = applyPaths ops (setAtPath op.1 op.2 e) := rfl

theorem DictAt.shape {v : Value} {q : List Scalar} (h : DictAt v q) :
    v.view q = some (.dict []) := by
  obtain ⟨c, hc⟩ := h
  simp [Value.view, hc, Value.shape]

/-- One write on a tree is one step on its view. -/
theorem setAtPath_view {p : List Scalar} (hp : p ≠ []) (w : Value) (e : Entries) :
    (Value.dict (setAtPath p w e)).view = Op.step (p, w) (Value.dict e).view := by
  funext q
  simp only [Op.step]
  split_ifs with hpq hqp
  · obtain ⟨u, rfl⟩ := hpq
    simp [Value.view, Value.lookup_append, lookup_setAtPath_self p hp]
  · exact (dictAt_setAtPath_of_lt hqp (fun h => hpq (h ▸ List.prefix_rfl)) w e).shape
  · simp only [Value.view, lookup_setAtPath_of_incomparable hpq hqp]

/-- The loop on a tree is the loop on its view. -/
theorem applyPaths_view (ops : List Op) (hne : ∀ op ∈ ops, op.1 ≠ []) (e : Entries) :
    (Value.dict (applyPaths ops e)).view = runView ops (Value.dict e).view := by
  induction ops generalizing e with
  | nil => rfl
  | cons op ops ih =>
    rw [applyPaths_cons, runView_cons, ih (fun o ho => hne o (.tail _ ho)),
      setAtPath_view (hne op (.head _))]

/-! ## Section 5: `project_keys` -/

/-- A `project_keys` dict, a `dict[str, str]`: dotted keys and their values in iteration
    order; a dict holds each key once. -/
structure ProjectKeys where
  items : List (String × String)
  nodup : (items.map Prod.fst).Nodup

/-- The path a dotted key addresses: its segments, as string keys. -/
def keyPath (key : String) : List Scalar := (splitKey key).map .str

theorem keyPath_injective {a b : String} (h : keyPath a = keyPath b) : a = b :=
  splitKey_injective (List.map_injective_iff.mpr (fun _ _ e => Scalar.str.inj e) h)

/-- The writes of the loop for `project_keys`: each key's path and its converted value,
    in iteration order, or the first exception a conversion raises. -/
def keyOps (py : PyParsers) : List (String × String) → Except PyExc (List Op)
  | [] => .ok []
  | (k, v) :: rest => (convertYamlValue py (.scalar (.str v))).bind fun w =>
      (keyOps py rest).map ((keyPath k, w) :: ·)

theorem keyOps_cons_eq_ok {py : PyParsers} {k v : String} {rest : List (String × String)}
    {ops : List Op} : keyOps py ((k, v) :: rest) = .ok ops ↔
      ∃ w ops', convertYamlValue py (.scalar (.str v)) = .ok w ∧ keyOps py rest = .ok ops' ∧
        ops = (keyPath k, w) :: ops' := by
  simp only [keyOps, bind_eq_ok, map_eq_ok]
  constructor
  · rintro ⟨w, hw, ops', hops', rfl⟩; exact ⟨w, ops', hw, hops', rfl⟩
  · rintro ⟨w, ops', hw, hops', rfl⟩; exact ⟨w, hw, ops', hops', rfl⟩

/-- When no value's conversion raises, the writes exist. -/
theorem keyOps_of_converts (py : PyParsers) : ∀ {items : List (String × String)},
    (∀ kv ∈ items, ∃ w, convertYamlValue py (.scalar (.str kv.2)) = .ok w) →
    ∃ ops, keyOps py items = .ok ops
  | [], _ => ⟨[], rfl⟩
  | (k, v) :: rest, h => by
    obtain ⟨w, hw⟩ := h (k, v) (.head _)
    obtain ⟨ops, hops⟩ := keyOps_of_converts py fun kv hkv => h kv (.tail _ hkv)
    exact ⟨_, keyOps_cons_eq_ok.mpr ⟨w, ops, hw, hops, rfl⟩⟩

/-- The written paths are the keys' paths. -/
theorem keyOps_paths {py : PyParsers} : ∀ {items : List (String × String)} {ops : List Op},
    keyOps py items = .ok ops → ops.map Prod.fst = items.map fun kv => keyPath kv.1
  | [], _, h => by cases h; rfl
  | (k, v) :: rest, _, h => by
    obtain ⟨w, ops', -, hops', rfl⟩ := keyOps_cons_eq_ok.mp h
    simp [keyOps_paths hops']

theorem keyOps_append {py : PyParsers} : ∀ {l₁ l₂ : List (String × String)} {ops : List Op},
    keyOps py (l₁ ++ l₂) = .ok ops →
    ∃ o₁ o₂, keyOps py l₁ = .ok o₁ ∧ keyOps py l₂ = .ok o₂ ∧ ops = o₁ ++ o₂
  | [], _, _, h => ⟨[], _, rfl, h, rfl⟩
  | (k, v) :: l₁, l₂, _, h => by
    obtain ⟨w, ops', hw, hops', rfl⟩ := keyOps_cons_eq_ok.mp h
    obtain ⟨o₁, o₂, h₁, h₂, rfl⟩ := keyOps_append hops'
    exact ⟨_, o₂, keyOps_cons_eq_ok.mpr ⟨w, o₁, hw, h₁, rfl⟩, h₂, rfl⟩

/-- Another iteration order of the same items gives the same writes, reordered. -/
theorem keyOps_perm {py : PyParsers} {items items' : List (String × String)} {ops : List Op}
    (hops : keyOps py items = .ok ops) (hperm : items.Perm items') :
    ∃ ops', keyOps py items' = .ok ops' ∧ ops.Perm ops' := by
  induction hperm generalizing ops with
  | nil => exact ⟨ops, hops, .refl _⟩
  | cons kv _ ih =>
    obtain ⟨w, o, hw, ho, rfl⟩ := keyOps_cons_eq_ok.mp hops
    obtain ⟨o', ho', hp⟩ := ih ho
    exact ⟨_, keyOps_cons_eq_ok.mpr ⟨w, o', hw, ho', rfl⟩, hp.cons _⟩
  | swap kv₁ kv₂ l =>
    obtain ⟨w₂, o, hw₂, ho, rfl⟩ := keyOps_cons_eq_ok.mp hops
    obtain ⟨w₁, o', hw₁, ho', rfl⟩ := keyOps_cons_eq_ok.mp ho
    exact ⟨_, keyOps_cons_eq_ok.mpr ⟨w₁, _, hw₁, keyOps_cons_eq_ok.mpr ⟨w₂, o', hw₂, ho', rfl⟩, rfl⟩,
      .swap _ _ _⟩
  | trans _ _ ih₁ ih₂ =>
    obtain ⟨o₁, h₁, hp₁⟩ := ih₁ hops
    obtain ⟨o₂, h₂, hp₂⟩ := ih₂ h₁
    exact ⟨o₂, h₂, hp₁.trans hp₂⟩

/-- What the loop over `keys` guarantees of the view `R` it leaves from the view `V`: a
    key that no later key's path can reach (as a proper prefix or a proper extension)
    keeps its converted value, with dicts on its way; a path that is no prefix and no
    extension of any key's path keeps its value. -/
structure KeysLaw (py : PyParsers) (keys : ProjectKeys) (V R : View) : Prop where
  survives : ∀ pre k v post, keys.items = pre ++ (k, v) :: post →
    (∀ kv ∈ post, ¬ (keyPath kv.1 <+: keyPath k ∧ keyPath kv.1 ≠ keyPath k) ∧
      ¬ (keyPath k <+: keyPath kv.1 ∧ keyPath k ≠ keyPath kv.1)) →
    ∀ w, convertYamlValue py (.scalar (.str v)) = .ok w →
    (∀ u, R (keyPath k ++ u) = w.view u) ∧
      ∀ q, q <+: keyPath k → q ≠ keyPath k → R q = some (.dict [])
  untouched : ∀ q, (∀ kv ∈ keys.items, Incomparable (keyPath kv.1) q) → R q = V q

/-- The loop on views meets `KeysLaw`: distinct keys have distinct paths, so a later key
    that is neither a proper prefix nor a proper extension is incomparable. -/
theorem runView_keysLaw {py : PyParsers} {keys : ProjectKeys} {ops : List Op}
    (hops : keyOps py keys.items = .ok ops) (V : View) : KeysLaw py keys V (runView ops V) := by
  have hpaths := keyOps_paths hops
  constructor
  · intro pre k v post hsplit hlater w hw
    rw [hsplit] at hops
    obtain ⟨o₁, o₂, -, h₂, rfl⟩ := keyOps_append hops
    obtain ⟨w', o₃, hw', h₃, rfl⟩ := keyOps_cons_eq_ok.mp h₂
    obtain rfl : w' = w := Except.ok.inj (hw'.symm.trans hw)
    have hk : k ∉ post.map Prod.fst := by
      have := keys.nodup
      rw [hsplit, List.map_append, List.map_cons] at this
      exact (List.nodup_cons.mp this.of_append_right).1
    have hpost : ∀ op ∈ o₃, Incomparable op.1 (keyPath k) := by
      intro op ho
      obtain ⟨kv, hkv, hp⟩ : ∃ kv ∈ post, keyPath kv.1 = op.1 := by
        simpa [keyOps_paths h₃] using List.mem_map_of_mem Prod.fst ho
      rw [← hp]
      have hne : keyPath kv.1 ≠ keyPath k := fun h =>
        hk (List.mem_map.mpr ⟨kv, hkv, keyPath_injective h⟩)
      exact ⟨fun h => (hlater kv hkv).1 ⟨h, hne⟩, fun h => (hlater kv hkv).2 ⟨h, hne.symm⟩⟩
    exact runView_last_write o₁ o₃ _ _ hpost V
  · intro q hq
    refine runView_of_incomparable (fun op ho => ?_) V
    obtain ⟨kv, hkv, hp⟩ : ∃ kv ∈ keys.items, keyPath kv.1 = op.1 := by
      simpa [hpaths] using List.mem_map_of_mem Prod.fst ho
    exact hp ▸ hq kv hkv

/-- When the key paths are pairwise prefix-free, every iteration order of the same items
    gives the same view. -/
theorem runView_keyOps_perm {py : PyParsers} {items items' : List (String × String)}
    {ops : List Op} (hops : keyOps py items = .ok ops)
    (hpf : items.Pairwise fun a b => Incomparable (keyPath a.1) (keyPath b.1))
    (hperm : items.Perm items') (V : View) :
    ∃ ops', keyOps py items' = .ok ops' ∧ runView ops' V = runView ops V := by
  obtain ⟨ops', hops', hp⟩ := keyOps_perm hops hperm
  have hpf' : (ops.map Prod.fst).Pairwise Incomparable := by
    rw [keyOps_paths hops]; exact List.pairwise_map.mpr hpf
  exact ⟨ops', hops', (runView_perm (List.pairwise_map.mp hpf') hp V).symm⟩

end Cosmos
