import Mathlib.Data.List.Basic

/-! # Python values of a loaded `dbt_project.yml`

    `yaml.safe_load` turns a YAML document into Python objects: `None`, booleans,
    integers, floats, strings, a few other scalars (dates, timestamps, bytes), lists
    and dicts. This module gives their tree view:

    * `Scalar` is what may stand as a dict key (`safe_load` refuses an unhashable key);
    * `Value` is a scalar, a list or a dict, a dict being its entries in insertion
      order, as Python keeps them;
    * `assign` is Python's `d[k] = v`: the value of a present key is replaced where
      it stands, a new key is appended.

    A tree has no sharing. What `safe_load` builds for a document with anchors and
    aliases, where one dict object is reached along two paths, is modelled by the
    heap of `Cosmos.Config.Heap`, which refines this view on documents without them.
-/

namespace Cosmos

/-! ## Section 1: Scalars, values and exceptions -/

/-- A hashable scalar as `yaml.safe_load` builds it. A float is kept as Python's
    `repr` of it, which determines the double; `other` is any further scalar type
    (`datetime.date`, `datetime.datetime`, `bytes`) by its YAML tag and text. -/
inductive Scalar where
  | none
  | bool (b : Bool)
  | int (i : Int)
  | float (repr : String)
  | str (s : String)
  | other (tag text : String)
  deriving DecidableEq, Repr

/-- A Python value of a loaded document, as a tree: dicts hold their entries in
    insertion order. -/
inductive Value where
  | scalar (s : Scalar)
  | list (items : List Value)
  | dict (entries : List (Scalar × Value))
  deriving Repr, Inhabited

/-- The entries of a Python dict, in insertion order. -/
abbrev Entries := List (Scalar × Value)

mutual
/-- Structural equality of values, by mutual recursion over the nested lists. -/
def Value.decEq : (a b : Value) → Decidable (a = b)
  | .scalar s, .scalar t =>
    if h : s = t then isTrue (h ▸ rfl) else isFalse fun e => by cases e; exact h rfl
  | .list xs, .list ys =>
    match Value.decEqList xs ys with
    | isTrue h => isTrue (h ▸ rfl)
    | isFalse h => isFalse fun e => by cases e; exact h rfl
  | .dict xs, .dict ys =>
    match Value.decEqEntries xs ys with
    | isTrue h => isTrue (h ▸ rfl)
    | isFalse h => isFalse fun e => by cases e; exact h rfl
  | .scalar _, .list _ | .scalar _, .dict _ | .list _, .scalar _
  | .list _, .dict _ | .dict _, .scalar _ | .dict _, .list _ => isFalse fun e => by cases e

/-- Equality of lists of values. -/
def Value.decEqList : (a b : List Value) → Decidable (a = b)
  | [], [] => isTrue rfl
  | x :: xs, y :: ys =>
    match Value.decEq x y, Value.decEqList xs ys with
    | isTrue h₁, isTrue h₂ => isTrue (h₁ ▸ h₂ ▸ rfl)
    | isFalse h, _ => isFalse fun e => by cases e; exact h rfl
    | _, isFalse h => isFalse fun e => by cases e; exact h rfl
  | [], _ :: _ | _ :: _, [] => isFalse fun e => by cases e

/-- Equality of dict entries. -/
def Value.decEqEntries : (a b : Entries) → Decidable (a = b)
  | [], [] => isTrue rfl
  | (k, x) :: xs, (l, y) :: ys =>
    if hk : k = l then
      match Value.decEq x y, Value.decEqEntries xs ys with
      | isTrue h₁, isTrue h₂ => isTrue (hk ▸ h₁ ▸ h₂ ▸ rfl)
      | isFalse h, _ => isFalse fun e => by cases e; exact h rfl
      | _, isFalse h => isFalse fun e => by cases e; exact h rfl
    else isFalse fun e => by cases e; exact hk rfl
  | [], _ :: _ | _ :: _, [] => isFalse fun e => by cases e
end

instance : DecidableEq Value := Value.decEq

/-- Python's truth value of a loaded value: `None`, `False`, zero, the empty string
    and empty containers are false. -/
def Value.truthy : Value → Bool
  | .scalar .none => false
  | .scalar (.bool b) => b
  | .scalar (.int i) => i != 0
  | .scalar (.float r) => r != "0.0" && r != "-0.0"
  | .scalar (.str s) => !s.isEmpty
  | .scalar (.other _ _) => true
  | .list items => !items.isEmpty
  | .dict entries => !entries.isEmpty

/-- Whether a value is a dict (`isinstance(v, dict)`). -/
def Value.isDict : Value → Bool
  | .dict _ => true
  | _ => false

/-- A Python exception, as far as the modelled code raises or lets one through.
    `raised` is any exception of code the model leaves abstract, such as the body of
    a `with` block; `shutilError` is `shutil.Error`, whose list of failures is not
    kept; `jsonDecodeError` is `json.JSONDecodeError`, the one exception of
    `json.loads` that `_convert_yaml_value` catches. -/
inductive PyExc where
  | fileNotFoundError (msg : String)
  | isADirectoryError (msg : String)
  | fileExistsError (msg : String)
  | notADirectoryError (msg : String)
  | permissionError (msg : String)
  | yamlError (msg : String)
  | typeError
  | attributeError
  | keyError (key : String)
  | valueError (msg : String)
  | jsonDecodeError
  | indexError
  | unboundLocalError (name : String)
  | cosmosValueError (msg : String)
  | sameFileError (src dst : String)
  | shutilError
  | recursionError
  | raised (name : String)
  deriving DecidableEq, Repr

/-- A computation that may raise, followed by another, succeeds when both do. -/
theorem bind_eq_ok {ε α β : Type} {x : Except ε α} {f : α → Except ε β} {b : β} :
    x.bind f = .ok b ↔ ∃ a, x = .ok a ∧ f a = .ok b := by
  cases x <;> simp [Except.bind]

theorem map_eq_ok {ε α β : Type} {x : Except ε α} {f : α → β} {b : β} :
    x.map f = .ok b ↔ ∃ a, x = .ok a ∧ f a = b := by
  cases x <;> simp [Except.map]

/-! ## Section 2: Dict assignment

    Python's `d[k] = v`, on an association list in insertion order. It is shared by
    the dicts of a document, the directory entries of the file system model and the
    objects of the heap model. -/

section assign
variable {α β : Type} [DecidableEq α] [BEq α] [LawfulBEq α]

/-- `d[k] = v`: replace the value of `k` where it stands, or append `(k, v)`. -/
def assign : List (α × β) → α → β → List (α × β)
  | [], k, v => [(k, v)]
  | (k', v') :: rest, k, v => if k' = k then (k, v) :: rest else (k', v') :: assign rest k v

/-- `List.lookup` on a cons cell, as an `if` on the key. -/
theorem lookup_cons_ite (k j : α) (v : β) (d : List (α × β)) :
    ((k, v) :: d).lookup j = if j = k then some v else d.lookup j := by
  rw [List.lookup_cons]; split <;> simp_all

@[simp] theorem lookup_assign_self (d : List (α × β)) (k : α) (v : β) :
    (assign d k v).lookup k = some v := by
  induction d with
  | nil => simp [assign, lookup_cons_ite]
  | cons e d ih =>
    obtain ⟨k', v'⟩ := e
    by_cases h : k' = k
    · simp [assign, h, lookup_cons_ite]
    · simp [assign, h, lookup_cons_ite, Ne.symm h, ih]

theorem lookup_assign_of_ne (d : List (α × β)) {k j : α} (v : β) (h : j ≠ k) :
    (assign d k v).lookup j = d.lookup j := by
  induction d with
  | nil => simp [assign, lookup_cons_ite, h]
  | cons e d ih =>
    obtain ⟨k', v'⟩ := e
    by_cases hk : k' = k
    · subst hk; simp [assign, lookup_cons_ite, h]
    · simp [assign, hk, lookup_cons_ite, ih]

/-- Assigning the value a key already has first changes nothing. -/
theorem assign_of_lookup_eq {d : List (α × β)} {k : α} {v : β} (h : d.lookup k = some v) :
    assign d k v = d := by
  induction d with
  | nil => simp at h
  | cons e d ih =>
    obtain ⟨k', v'⟩ := e
    by_cases hk : k' = k
    · subst hk; simp_all [assign, lookup_cons_ite]
    · simp_all [assign, lookup_cons_ite, Ne.symm hk]

theorem lookup_eq_none_of_not_mem {d : List (α × β)} {k : α} (h : k ∉ d.map Prod.fst) :
    d.lookup k = none := by
  induction d with
  | nil => rfl
  | cons e d ih =>
    simp only [List.map_cons, List.mem_cons, not_or] at h
    rw [lookup_cons_ite, if_neg h.1, ih h.2]

theorem mem_assign_keys (d : List (α × β)) (k x : α) (v : β) :
    x ∈ (assign d k v).map Prod.fst ↔ x = k ∨ x ∈ d.map Prod.fst := by
  induction d with
  | nil => simp [assign]
  | cons e d ih =>
    obtain ⟨k', v'⟩ := e
    by_cases hk : k' = k
    · subst hk; simp [assign]
    · simp only [assign, hk, if_false, List.map_cons, List.mem_cons, ih]; tauto

/-- An assignment keeps the keys of a dict distinct. -/
theorem assign_keys_nodup {d : List (α × β)} (h : (d.map Prod.fst).Nodup) (k : α) (v : β) :
    ((assign d k v).map Prod.fst).Nodup := by
  induction d with
  | nil => simp [assign]
  | cons e d ih =>
    obtain ⟨k', v'⟩ := e
    obtain ⟨hk', hd⟩ := List.nodup_cons.mp h
    by_cases hk : k' = k
    · subst hk; simpa [assign] using h
    · simp only [assign, hk, if_false, List.map_cons]
      exact List.nodup_cons.mpr ⟨fun hm => ((mem_assign_keys d k k' v).mp hm).elim hk hk', ih hd⟩

theorem mem_keys_of_lookup {d : List (α × β)} {k : α} {v : β} (h : d.lookup k = some v) :
    k ∈ d.map Prod.fst := by
  by_contra hk
  rw [lookup_eq_none_of_not_mem hk] at h
  cases h

theorem mem_of_lookup_eq_some {d : List (α × β)} {k : α} {v : β} (h : d.lookup k = some v) :
    (k, v) ∈ d := by
  induction d with
  | nil => cases h
  | cons e d ih =>
    obtain ⟨k', v'⟩ := e
    rw [lookup_cons_ite] at h
    split at h
    · cases h; subst_vars; exact List.mem_cons_self _ _
    · exact List.mem_cons_of_mem _ (ih h)

theorem lookup_isSome_iff_mem_keys (d : List (α × β)) (k : α) :
    (d.lookup k).isSome ↔ k ∈ d.map Prod.fst := by
  induction d with
  | nil => simp
  | cons e d ih =>
    obtain ⟨k', v'⟩ := e
    by_cases h : k = k'
    · simp [lookup_cons_ite, h]
    · simp [lookup_cons_ite, h, ih]

omit [BEq α] [LawfulBEq α] in
/-- A second assignment to a key replaces the first. -/
@[simp] theorem assign_assign (d : List (α × β)) (k : α) (v v' : β) :
    assign (assign d k v) k v' = assign d k v' := by
  induction d with
  | nil => simp [assign]
  | cons e d ih =>
    obtain ⟨k', v''⟩ := e
    by_cases hk : k' = k
    · simp [assign, hk]
    · simp [assign, hk, ih]

omit [BEq α] [LawfulBEq α] in
/-- An entry of a dict after an assignment is the assigned one or an old one. -/
theorem mem_assign {d : List (α × β)} {k : α} {v : β} {x : α × β} (h : x ∈ assign d k v) :
    x = (k, v) ∨ x ∈ d := by
  induction d with
  | nil => simpa [assign] using h
  | cons e d ih =>
    obtain ⟨k', v'⟩ := e
    by_cases hk : k' = k
    · simp only [assign, hk, if_true, List.mem_cons] at h
      exact h.imp_right (List.mem_cons_of_mem _)
    · simp only [assign, hk, if_false, List.mem_cons] at h
      rcases h with rfl | h
      · exact .inr (List.mem_cons_self _ _)
      · exact (ih h).imp_right (List.mem_cons_of_mem _)

/-- The lookup after an assignment, in one statement. -/
theorem lookup_assign (d : List (α × β)) (k j : α) (v : β) :
    (assign d k v).lookup j = if j = k then some v else d.lookup j := by
  split
  · subst_vars; exact lookup_assign_self d j v
  · exact lookup_assign_of_ne d v ‹_›

end assign

/-! ## Section 3: `_convert_yaml_value` and dotted keys -/

/-- What `_convert_yaml_value` borrows from Python's library: `json.loads`, `float`
    and `int` applied to a string. `json.loads` returns a value or raises:
    `JSONDecodeError` on malformed JSON, or another exception (`ValueError` past the
    digit limit of an integer, `RecursionError` on deep nesting). `float` and `int`
    are `none` where they raise `ValueError`, the one exception they raise on a `str`.
    A float is returned by its `repr`. -/
structure PyParsers where
  jsonLoads : String → Except PyExc Value
  float : String → Option String
  int : String → Option Int

/-- Python's `value.lower()` as far as `_convert_yaml_value` needs it: `Char.toLower`
    lowers ASCII only, which decides the same membership in the spellings below, since
    no other character lowers to one of their letters. -/
def lower (s : String) : String := ⟨s.toList.map Char.toLower⟩

/-- The number step of `_convert_yaml_value`: `float` when the string holds a dot, `int`
    otherwise, and the string itself when that raises `ValueError`. -/
def convertNumber (py : PyParsers) (s : String) : Value :=
  if '.' ∈ s.toList then ((py.float s).map fun r => .scalar (.float r)).getD (.scalar (.str s))
  else ((py.int s).map fun i => .scalar (.int i)).getD (.scalar (.str s))

/-- `_convert_yaml_value(value)` on a string: the boolean and null spellings, then
    `json.loads` for a string opening with a bracket, which falls through to the number
    step on `JSONDecodeError` alone and lets any other exception propagate, then the
    number step. -/
def convertString (py : PyParsers) (s : String) : Except PyExc Value :=
  if lower s ∈ ["true", "yes", "on"] then .ok (.scalar (.bool true))
  else if lower s ∈ ["false", "no", "off"] then .ok (.scalar (.bool false))
  else if lower s ∈ ["null", "none", "~", ""] then .ok (.scalar .none)
  else if s.toList.head? ∈ [some '[', some '\x7b'] then
    match py.jsonLoads s with
    | .ok v => .ok v
    | .error .jsonDecodeError => .ok (convertNumber py s)
    | .error e => .error e
  else .ok (convertNumber py s)

/-- `_convert_yaml_value(value)`: a string is converted, any other value is returned as
    it is (the caller's own object; `project_keys` is a `dict[str, str]`, so the loop of
    `apply_project_keys_to_dbt_project_yml` only passes strings). -/
def convertYamlValue (py : PyParsers) : Value → Except PyExc Value
  | .scalar (.str s) => convertString py s
  | v => .ok v

/-- Parsers that reject every string. `_convert_yaml_value` settles the boolean and null
    spellings before it calls a parser, and `int("table")` raises as well, so on such
    values these give what Python's give. -/
def PyParsers.rejectAll : PyParsers := ⟨fun _ => .error .jsonDecodeError, fun _ => none, fun _ => none⟩

/-- Python's `key.split(".")`: the segments between dots, empty ones included. -/
def splitKey (key : String) : List String := (key.toList.splitOn '.').map String.mk

theorem splitKey_ne_nil (key : String) : splitKey key ≠ [] := by
  simpa [splitKey, List.splitOn] using List.splitOnP_ne_nil _ key.toList

/-- Splitting loses nothing: joining the segments with dots gives the key back, so two
    keys of a dict never share a path. -/
theorem splitKey_injective {a b : String} (h : splitKey a = splitKey b) : a = b := by
  have hmk : Function.Injective String.mk := fun x y e => by cases e; rfl
  have hdata := congrArg (['.'].intercalate) ((List.map_injective_iff.mpr hmk) h)
  simp only [List.intercalate_splitOn] at hdata
  cases a; cases b; simp_all

end Cosmos
