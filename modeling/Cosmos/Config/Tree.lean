import Cosmos.Yaml.Value

/-! # The tree view of `_set_nested_key`

    On a document without sharing, `_set_nested_key(config, key, value)` is a pure
    function of the tree: `setAtPath p w e` walks the segments of `p` from the dict
    `e`, keeps each dict it finds, stores a fresh `{}` where a segment is missing or
    holds a non-dict (the loop's two assignments of `{}`), and assigns `w` at the last
    segment.

    What one write does below a top-level key is said once, by `setAtPath_lookup`
    (through `writeBelow`); every lemma on dotted lookups is derived from it:

    * the written path holds `w` (`lookup_setAtPath_self`);
    * each proper prefix of it holds a dict (`dictAt_setAtPath_of_lt`);
    * a path incomparable with it is untouched (`lookup_setAtPath_of_incomparable`);
    * a path extending it is looked up inside `w` (`Value.lookup_append`).
-/

namespace Cosmos

/-! ## Section 1: Dotted lookup -/

/-- The value at a dotted path: `none` when a segment is missing or a value on the way
    is not a dict. -/
def Value.lookup : Value → List Scalar → Option Value
  | v, [] => some v
  | .dict e, k :: ks => (e.lookup k).bind fun c => c.lookup ks
  | _, _ :: _ => none

@[simp] theorem Value.lookup_nil (v : Value) : v.lookup [] = some v := by
  cases v <;> rfl

@[simp] theorem Value.lookup_dict_cons (e : Entries) (k : Scalar) (ks : List Scalar) :
    (Value.dict e).lookup (k :: ks) = (e.lookup k).bind fun c => c.lookup ks := rfl

theorem Value.lookup_cons_of_isDict_false {v : Value} (h : v.isDict = false)
    (k : Scalar) (ks : List Scalar) : v.lookup (k :: ks) = none := by
  cases v <;> simp_all [Value.isDict, Value.lookup]

/-- Looking up `p ++ q` is looking up `q` in what `p` finds. -/
theorem Value.lookup_append (v : Value) (p q : List Scalar) :
    v.lookup (p ++ q) = (v.lookup p).bind fun c => c.lookup q := by
  induction p generalizing v with
  | nil => simp
  | cons k p ih =>
    cases v with
    | dict e => simp [ih, Option.bind_assoc]
    | scalar s => rfl
    | list items => rfl

/-- A dict stands at path `q`. -/
def DictAt (v : Value) (q : List Scalar) : Prop := ∃ c, v.lookup q = some (.dict c)

/-! ## Section 2: One write -/

/-- The dict held by a found value: its entries, or none when it is missing or not a
    dict. -/
def asDict : Option Value → Entries
  | some (.dict c) => c
  | _ => []

/-- The dict `_set_nested_key` descends into at segment `k`: the dict found there, or
    the fresh `{}` it stores when `k` is missing or holds a non-dict. -/
def child (e : Entries) (k : Scalar) : Entries := asDict (e.lookup k)

/-- `_set_nested_key` on the tree view, for the segments `p` of the key and the
    converted value `w`. The empty path does not occur: `key.split(".")` is never
    empty. -/
def setAtPath : List Scalar → Value → Entries → Entries
  | [], _, e => e
  | [k], w, e => assign e k w
  | k :: k' :: ks, w, e => assign e k (.dict (setAtPath (k' :: ks) w (child e k)))

/-- What a write at the remaining segments `p` leaves under a key that held `o`: `w`
    itself when no segment is left, else the dict descended into, written below. -/
def writeBelow (p : List Scalar) (w : Value) (o : Option Value) : Option Value :=
  match p with
  | [] => some w
  | _ :: _ => some (.dict (setAtPath p w (asDict o)))

/-- The one-step lemma: a write at `j :: p` changes the entry of key `j` only, as
    `writeBelow` says. -/
theorem setAtPath_lookup (j k : Scalar) (p : List Scalar) (w : Value) (e : Entries) :
    (setAtPath (j :: p) w e).lookup k =
      if k = j then writeBelow p w (e.lookup k) else e.lookup k := by
  cases p with
  | nil => by_cases h : k = j <;> simp [setAtPath, writeBelow, lookup_assign, h]
  | cons k' ks =>
    by_cases h : k = j
    · subst h; simp [setAtPath, writeBelow, child]
    · simp [setAtPath, lookup_assign, h]

/-- `writeBelow` seen from a dotted path below the key. -/
theorem lookup_setAtPath_cons (j k : Scalar) (p q : List Scalar) (w : Value) (e : Entries) :
    (Value.dict (setAtPath (j :: p) w e)).lookup (k :: q) =
      if k = j then (writeBelow p w (e.lookup k)).bind fun c => c.lookup q
      else (Value.dict e).lookup (k :: q) := by
  rw [Value.lookup_dict_cons, setAtPath_lookup]
  split <;> rfl

/-- Below a key, the fresh `{}` and a missing dict look the same at a non-empty path. -/
theorem lookup_asDict (o : Option Value) {q : List Scalar} (hq : q ≠ []) :
    (Value.dict (asDict o)).lookup q = o.bind fun c => c.lookup q := by
  obtain ⟨k, q, rfl⟩ := List.exists_cons_of_ne_nil hq
  rcases o with _ | ⟨_ | _ | c⟩ <;> rfl

/-- The written path holds the written value. -/
theorem lookup_setAtPath_self (p : List Scalar) (hp : p ≠ []) (w : Value) (e : Entries) :
    (Value.dict (setAtPath p w e)).lookup p = some w := by
  induction p generalizing e with
  | nil => exact absurd rfl hp
  | cons k p ih =>
    rw [lookup_setAtPath_cons, if_pos rfl]
    cases p with
    | nil => simp [writeBelow]
    | cons k' ks => simpa [writeBelow] using ih (List.cons_ne_nil _ _) _

/-- A path neither prefix nor extension of the written one keeps its value. -/
theorem lookup_setAtPath_of_incomparable {p q : List Scalar} (hpq : ¬ p <+: q)
    (hqp : ¬ q <+: p) (w : Value) (e : Entries) :
    (Value.dict (setAtPath p w e)).lookup q = (Value.dict e).lookup q := by
  induction p generalizing q e with
  | nil => exact absurd List.nil_prefix hpq
  | cons k p ih =>
    cases q with
    | nil => exact absurd List.nil_prefix hqp
    | cons j q =>
      rw [lookup_setAtPath_cons]
      split
      · subst_vars
        simp only [List.cons_prefix_cons, true_and] at hpq hqp
        cases p with
        | nil => exact absurd List.nil_prefix hpq
        | cons k' ks =>
          have hq : q ≠ [] := by rintro rfl; exact hqp List.nil_prefix
          simp only [writeBelow, Option.some_bind]
          rw [ih hpq hqp, lookup_asDict _ hq, Value.lookup_dict_cons]
      · rfl

/-- Every proper prefix of the written path holds a dict. -/
theorem dictAt_setAtPath_of_lt {p q : List Scalar} (hqp : q <+: p) (hne : q ≠ p)
    (w : Value) (e : Entries) : DictAt (.dict (setAtPath p w e)) q := by
  induction p generalizing q e with
  | nil => exact absurd (List.prefix_nil.mp hqp) hne
  | cons k p ih =>
    cases q with
    | nil => exact ⟨_, rfl⟩
    | cons j q =>
      obtain ⟨rfl, hsub⟩ := List.cons_prefix_cons.mp hqp
      cases p with
      | nil => exact absurd (by simpa using hsub) hne
      | cons k' ks =>
        rw [DictAt, lookup_setAtPath_cons, if_pos rfl]
        exact ih hsub (fun h => hne (h ▸ rfl)) _

end Cosmos
