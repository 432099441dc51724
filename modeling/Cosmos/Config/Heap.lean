import Cosmos.Config.Apply

/-! # Python objects: the faithful model of `_set_nested_key`

    `yaml.safe_load` builds each YAML mapping as a dict object, and an alias (`*name`)
    of an anchored mapping (`&name`) is that same object again, not a copy.
    `_set_nested_key` walks these objects and mutates them in place, so a write through
    one path shows at every other path to the same object.

    A `Heap` holds the dict objects by address. A dict slot holds a `Ref`: a dict by
    its address, any other value by value. The modelled code never mutates a list or
    walks into one, so the identity of a list, and of a dict inside a list, is never
    observed.

    The values of `project_keys` are `str` (`dict[str, str]`), so a converted value is a
    new object: a scalar, or what `json.loads` builds.

    * `allocValue` builds the objects of a converted value;
    * `setNested` is the loop of `_set_nested_key` from the object `cur`, with the
      warnings it logs; `setNestedKey` is the function itself, which walks the path
      before it converts the value, so a conversion that raises stores nothing
      (`KeysRun`);
    * `applyKeysLoop` is the loop of `apply_project_keys_to_dbt_project_yml` over
      `project_keys.items()`, which stops at the first exception;
    * `Heap.lookup` follows a path of keys from a reference.
-/

namespace Cosmos

/-! ## Section 1: Objects and references -/

/-- What a dict slot holds: a dict object by its address, or any other value (never a
    dict) by value. -/
inductive Ref where
  | obj (a : Nat)
  | val (v : Value) (notDict : v.isDict = false)
  deriving DecidableEq

/-- The dict objects: the entries of each address, and the first address never
    allocated. -/
structure Heap where
  objs : Nat → List (Scalar × Ref)
  next : Nat

/-- A new dict object with the given entries, at address `h.next`. -/
def Heap.alloc (h : Heap) (es : List (Scalar × Ref)) : Heap :=
  ⟨Function.update h.objs h.next es, h.next + 1⟩

/-- `obj[k] = r` on the dict object at address `a`. -/
def Heap.store (h : Heap) (a : Nat) (k : Scalar) (r : Ref) : Heap :=
  ⟨Function.update h.objs a (assign (h.objs a) k r), h.next⟩

@[simp] theorem Heap.alloc_next (h : Heap) (es : List (Scalar × Ref)) :
    (h.alloc es).next = h.next + 1 := rfl

@[simp] theorem Heap.store_next (h : Heap) (a : Nat) (k : Scalar) (r : Ref) :
    (h.store a k r).next = h.next := rfl

theorem Heap.alloc_objs (h : Heap) (es : List (Scalar × Ref)) (b : Nat) :
    (h.alloc es).objs b = if b = h.next then es else h.objs b := by
  simp [Heap.alloc, Function.update_apply]

theorem Heap.store_objs (h : Heap) (a : Nat) (k : Scalar) (r : Ref) (b : Nat) :
    (h.store a k r).objs b = if b = a then assign (h.objs a) k r else h.objs b := by
  simp [Heap.store, Function.update_apply]

mutual
/-- The objects of a converted value: each dict becomes a fresh object, its entries
    first. -/
def allocValue : Value → Heap → Ref × Heap
  | .dict e, h =>
    let (es, h₁) := allocEntries e h
    (.obj h₁.next, h₁.alloc es)
  | .scalar s, h => (.val (.scalar s) rfl, h)
  | .list vs, h => (.val (.list vs) rfl, h)

/-- The objects of the values of a dict's entries, in order. -/
def allocEntries : Entries → Heap → List (Scalar × Ref) × Heap
  | [], h => ([], h)
  | (k, v) :: e, h =>
    let (r, h₁) := allocValue v h
    let (rs, h₂) := allocEntries e h₁
    ((k, r) :: rs, h₂)
end

/-- The reference found along a path of keys: dicts are walked through their objects. -/
def Heap.lookup (h : Heap) : Ref → List Scalar → Option Ref
  | r, [] => some r
  | .obj a, k :: ks => ((h.objs a).lookup k).bind fun r => h.lookup r ks
  | .val _ _, _ :: _ => none

@[simp] theorem Heap.lookup_nil (h : Heap) (r : Ref) : h.lookup r [] = some r := by
  cases r <;> rfl

/-! ## Section 2: `_set_nested_key` -/

/-- The warning the loop of `_set_nested_key` logs when the value under a segment is not
    a dict: the segment and the whole key. -/
structure Warning where
  segment : String
  key : String
  deriving DecidableEq, Repr

/-- The text `logger.warning` prints for a warning. -/
def Warning.message (w : Warning) : String :=
  "Key '" ++ w.segment ++ "' exists but is not a dictionary. Converting to dict to " ++
    "support nested key '" ++ w.key ++ "'"

/-- The loop of `_set_nested_key(config_dict, key, value)` from the object `cur`, over
    the segments still to walk: a dict found under a segment is walked into, anything
    else (with a warning) or nothing is replaced by a fresh `{}`; at the last segment
    the objects of the converted value are built and assigned. The conversion is pure,
    so it is given here already made: `none` when it raised, and then the walk has
    still run (its dicts and warnings stay) but nothing is assigned. The empty list does
    not occur: `key.split(".")` is never empty. -/
def setNested (key : String) (w : Option Value) : List String → Heap → Nat → Heap × List Warning
  | [], h, _ => (h, [])
  | [final], h, cur =>
    match w with
    | some w =>
      let (r, h₁) := allocValue w h
      (h₁.store cur (.str final) r, [])
    | none => (h, [])
  | k :: k' :: ks, h, cur =>
    match (h.objs cur).lookup (.str k) with
    | some (.obj a) => setNested key w (k' :: ks) h a
    | found =>
      let (h₁, ws) := setNested key w (k' :: ks) ((h.alloc []).store cur (.str k) (.obj h.next))
        h.next
      (h₁, if found.isSome then ⟨k, key⟩ :: ws else ws)

/-- A dict found under the segment is walked into. -/
theorem setNested_of_obj {key : String} {w : Option Value} {k k' : String} {ks : List String}
    {h : Heap} {cur a : Nat} (hl : (h.objs cur).lookup (.str k) = some (.obj a)) :
    setNested key w (k :: k' :: ks) h cur = setNested key w (k' :: ks) h a := by
  simp [setNested, hl]

/-- Anything else under the segment is replaced by a fresh `{}`, which is walked into; a
    value that was there is reported. -/
theorem setNested_of_not_obj {key : String} {w : Option Value} {k k' : String}
    {ks : List String} {h : Heap} {cur : Nat}
    (hl : ∀ a, (h.objs cur).lookup (.str k) ≠ some (.obj a)) :
    setNested key w (k :: k' :: ks) h cur =
      ((setNested key w (k' :: ks) ((h.alloc []).store cur (.str k) (.obj h.next)) h.next).1,
        if ((h.objs cur).lookup (.str k)).isSome then
          ⟨k, key⟩ :: (setNested key w (k' :: ks) ((h.alloc []).store cur (.str k) (.obj h.next)) h.next).2
        else (setNested key w (k' :: ks) ((h.alloc []).store cur (.str k) (.obj h.next)) h.next).2) := by
  rcases hf : (h.objs cur).lookup (.str k) with _ | ⟨a | ⟨v, hv⟩⟩
  · simp [setNested, hf]
  · exact absurd hf (hl a)
  · simp [setNested, hf]

theorem setNested_fst_of_not_obj {key : String} {w : Option Value} {k k' : String}
    {ks : List String} {h : Heap} {cur : Nat}
    (hl : ∀ a, (h.objs cur).lookup (.str k) ≠ some (.obj a)) :
    (setNested key w (k :: k' :: ks) h cur).1 =
      (setNested key w (k' :: ks) ((h.alloc []).store cur (.str k) (.obj h.next)) h.next).1 := by
  rw [setNested_of_not_obj hl]

/-- What the loop of `apply_project_keys_to_dbt_project_yml` leaves: the objects, the
    warnings logged, and the exception a conversion raised, which ends the loop. -/
structure KeysRun where
  heap : Heap
  warnings : List Warning
  raised : Option PyExc

/-- `_set_nested_key(config_dict, key, value)` on the dict object `root`. -/
def setNestedKey (py : PyParsers) (h : Heap) (root : Nat) (key value : String) : KeysRun :=
  let converted := convertYamlValue py (.scalar (.str value))
  let (h₁, ws) := setNested key (match converted with | .ok w => some w | .error _ => none)
    (splitKey key) h root
  ⟨h₁, ws, match converted with | .ok _ => none | .error e => some e⟩

/-- A conversion that does not raise is assigned. -/
theorem setNestedKey_of_ok {py : PyParsers} {h : Heap} {root : Nat} {key value : String}
    {w : Value} (hw : convertYamlValue py (.scalar (.str value)) = .ok w) :
    setNestedKey py h root key value =
      ⟨(setNested key (some w) (splitKey key) h root).1,
        (setNested key (some w) (splitKey key) h root).2, none⟩ := by
  simp only [setNestedKey, hw]

/-- The loop `for key, value in project_keys.items(): _set_nested_key(...)` of
    `apply_project_keys_to_dbt_project_yml`, on the config object `root`, with the
    warnings logged in order; an exception ends it. -/
def applyKeysLoop (py : PyParsers) : List (String × String) → Heap → Nat → KeysRun
  | [], h, _ => ⟨h, [], none⟩
  | (k, v) :: rest, h, root =>
    let r₁ := setNestedKey py h root k v
    match r₁.raised with
    | some _ => r₁
    | none =>
      let r₂ := applyKeysLoop py rest r₁.heap root
      ⟨r₂.heap, r₁.warnings ++ r₂.warnings, r₂.raised⟩

/-- Every warning of `_set_nested_key` names the whole key and a segment before the last
    one, and there is at most one per such segment. -/
theorem setNested_warnings (key : String) (w : Option Value) : ∀ (p : List String) (h : Heap)
    (cur : Nat), (setNested key w p h cur).2.Sublist (p.dropLast.map fun k => ⟨k, key⟩)
  | [], _, _ => List.Sublist.slnil
  | [_], _, _ => by cases w <;> exact List.nil_sublist _
  | k :: k' :: ks, h, cur => by
    rw [List.dropLast_cons₂, List.map_cons]
    by_cases hobj : ∃ a, (h.objs cur).lookup (.str k) = some (.obj a)
    · obtain ⟨a, hl⟩ := hobj
      rw [setNested_of_obj hl]
      exact (setNested_warnings key w _ h a).cons _
    · push_neg at hobj
      rw [setNested_of_not_obj hobj]
      split
      · exact (setNested_warnings key w _ _ _).cons₂ _
      · exact (setNested_warnings key w _ _ _).cons _

/-- One turn of the loop on a key whose value converts: the key, then the rest on its
    result. -/
theorem applyKeysLoop_cons_of_ok {py : PyParsers} {k v : String} {w : Value}
    (rest : List (String × String)) (h : Heap) (root : Nat)
    (hw : convertYamlValue py (.scalar (.str v)) = .ok w) :
    applyKeysLoop py ((k, v) :: rest) h root =
      ⟨(applyKeysLoop py rest (setNested k (some w) (splitKey k) h root).1 root).heap,
        (setNested k (some w) (splitKey k) h root).2 ++
          (applyKeysLoop py rest (setNested k (some w) (splitKey k) h root).1 root).warnings,
        (applyKeysLoop py rest (setNested k (some w) (splitKey k) h root).1 root).raised⟩ := by
  simp only [applyKeysLoop, setNestedKey_of_ok hw]

/-- Every warning the loop logs names a key of `project_keys` and a segment of it before
    the last, in the order of the keys. -/
theorem applyKeysLoop_warnings (py : PyParsers) : ∀ (items : List (String × String)) (h : Heap)
    (root : Nat), (applyKeysLoop py items h root).warnings.Sublist
      (items.flatMap fun kv => (splitKey kv.1).dropLast.map fun k => ⟨k, kv.1⟩)
  | [], _, _ => List.Sublist.slnil
  | (k, v) :: rest, h, root => by
    rw [List.flatMap_cons]
    have hfirst := setNested_warnings k
      (match convertYamlValue py (.scalar (.str v)) with | .ok w => some w | .error _ => none)
      (splitKey k) h root
    simp only [applyKeysLoop, setNestedKey]
    split
    · exact hfirst.trans (List.sublist_append_left _ _)
    · exact hfirst.append (applyKeysLoop_warnings py rest _ root)

end Cosmos
