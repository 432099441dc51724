import Cosmos.Yaml.Value
import Mathlib.Data.List.Nodup

/-! # `environ`: scoped environment variables

    `environ(env_vars)` saves the current value of each scoped name (`os.getenv`,
    `None` when unset), sets the names (`os.environ.update`), runs the body of the
    `with` block, and in its `finally` block puts each saved value back: `del` for a
    name that was unset, an assignment otherwise.

    Setting a name goes through `os.putenv`, which refuses some names and values
    (`putenvError`). `os.environ.update` sets the names one by one, so a refused one
    raises with the names before it already set; that happens before the `try`, so the
    body does not run and nothing is restored (`environ_putenv_raises`).

    The body is any function of the environment that returns the environment it leaves
    and the exception it raised, if any. An exception raised in the `finally` block
    replaces the body's.

    * `restore_ok`: when every name to delete is still set, the `finally` block puts
      the saved values back and raises nothing;
    * `restore_raises`: when a name to delete is already unset, `del` raises `KeyError`
      and the loop stops there.
-/

namespace Cosmos

/-! ## Section 1: The environment -/

/-- The process environment `os.environ`: the value of each name that is set. -/
abbrev Env := String → Option String

/-- What `os.putenv(key, value)` raises on POSIX, if anything: converting either argument
    to bytes refuses a NUL character, the name may not hold `=`, and `setenv` refuses an
    empty name (`EINVAL`). -/
def putenvError (key value : String) : Option PyExc :=
  if '\x00' ∈ key.toList ∨ '\x00' ∈ value.toList then some (.valueError "embedded null byte")
  else if '=' ∈ key.toList then some (.valueError "illegal environment variable name")
  else if key = "" then some (.raised "OSError")
  else none

/-- `os.environ[key] = value`: `os.putenv`, then the mapping. -/
def Env.setItem (E : Env) (key value : String) : Except PyExc Env :=
  match putenvError key value with
  | some exc => .error exc
  | none => .ok (Function.update E key (some value))

/-- `del os.environ[key]`: `KeyError` when the name is not set. The names `environ`
    deletes were set by `os.environ.update` before, so `os.unsetenv` accepts them. -/
def Env.delItem (E : Env) (key : String) : Except PyExc Env :=
  match E key with
  | none => .error (.keyError key)
  | some _ => .ok (Function.update E key none)

/-- `os.environ.update(env_vars)`: each name set in turn; the first one refused raises,
    with the names before it set. -/
def Env.update (E : Env) : List (String × String) → Env × Option PyExc
  | [] => (E, none)
  | (key, value) :: rest =>
    match E.setItem key value with
    | .error exc => (E, some exc)
    | .ok E' => E'.update rest

/-- The environment with the names set in turn, as `os.putenv` leaves it when it accepts
    them. -/
def Env.setAll (E : Env) (envVars : List (String × String)) : Env :=
  envVars.foldl (fun E kv => Function.update E kv.1 (some kv.2)) E

theorem Env.setItem_of_valid {E : Env} {key value : String} (h : putenvError key value = none) :
    E.setItem key value = .ok (Function.update E key (some value)) := by
  simp [Env.setItem, h]

/-- When `os.putenv` accepts every name, `os.environ.update` sets them all. -/
theorem Env.update_of_valid : ∀ (E : Env) (envVars : List (String × String)),
    (∀ kv ∈ envVars, putenvError kv.1 kv.2 = none) → E.update envVars = (E.setAll envVars, none)
  | _, [], _ => rfl
  | E, (k, v) :: rest, h => by
    simp only [Env.update, Env.setItem_of_valid (h (k, v) (.head _))]
    exact Env.update_of_valid _ rest fun kv hkv => h kv (.tail _ hkv)

/-- A refused name raises what `os.putenv` raises, with the names before it set. -/
theorem Env.update_of_invalid (E : Env) (pre post : List (String × String)) {key value : String}
    {exc : PyExc} (hpre : ∀ kv ∈ pre, putenvError kv.1 kv.2 = none)
    (hkey : putenvError key value = some exc) :
    E.update (pre ++ (key, value) :: post) = (E.setAll pre, some exc) := by
  induction pre generalizing E with
  | nil => simp [Env.update, Env.setItem, hkey, Env.setAll]
  | cons kv pre ih =>
    obtain ⟨k, v⟩ := kv
    simp only [List.cons_append, Env.update, Env.setItem_of_valid (hpre (k, v) (.head _))]
    exact ih _ fun kv hkv => hpre kv (.tail _ hkv)

/-! ## Section 2: `environ` -/

/-- The `finally` block of `environ`, over the saved names and values in order: `del` a
    name saved as `None`, set the others back. The first exception ends the loop and
    propagates. -/
def restore : List (String × Option String) → Env → Env × Option PyExc
  | [], E => (E, none)
  | (key, none) :: rest, E =>
    match E.delItem key with
    | .error exc => (E, some exc)
    | .ok E' => restore rest E'
  | (key, some value) :: rest, E =>
    match E.setItem key value with
    | .error exc => (E, some exc)
    | .ok E' => restore rest E'

/-- `original_env = {key: os.getenv(key) for key in env_vars}`. -/
def originalEnv (envVars : List (String × String)) (E : Env) : List (String × Option String) :=
  (envVars.map Prod.fst).map fun key => (key, E key)

/-- `with environ(env_vars): body` from the environment `E`: the environment left on
    exit and the exception that propagates, if any. An exception of `os.environ.update`
    comes before the `try`: the body does not run and nothing is restored. -/
def environ (envVars : List (String × String)) (body : Env → Env × Option PyExc) (E : Env) :
    Env × Option PyExc :=
  match E.update envVars with
  | (E₀, some exc) => (E₀, some exc)
  | (E₀, none) =>
    let (E₁, exc) := body E₀
    let (E₂, excFinally) := restore (originalEnv envVars E) E₁
    (E₂, excFinally.or exc)

/-! ## Section 3: The `finally` block -/

section restore
variable {key : String} {rest : List (String × Option String)} {E : Env}

theorem restore_del_of_set {v : String} (hk : E key = some v) :
    restore ((key, none) :: rest) E = restore rest (Function.update E key none) := by
  simp [restore, Env.delItem, hk]

theorem restore_del_of_unset (hk : E key = none) :
    restore ((key, none) :: rest) E = (E, some (.keyError key)) := by
  simp [restore, Env.delItem, hk]

/-- A saved value that `os.putenv` accepts, or a name saved as `None` that is still set:
    the entry is put back. -/
theorem restore_cons_of_set {o : Option String} (hk : o = none → E key ≠ none)
    (hv : ∀ v, o = some v → putenvError key v = none) :
    restore ((key, o) :: rest) E = restore rest (Function.update E key o) := by
  cases o with
  | none =>
    obtain ⟨v, hv⟩ := Option.ne_none_iff_exists'.mp (hk rfl)
    exact restore_del_of_set hv
  | some v => simp [restore, Env.setItem_of_valid (hv v rfl)]

/-- When every name saved as `None` is still set and `os.putenv` accepts every saved
    value, the `finally` block puts back each saved value (unset for `None`) and raises
    nothing. -/
theorem restore_ok : ∀ (saved : List (String × Option String)) (E : Env),
    (saved.map Prod.fst).Nodup → (∀ k, (k, none) ∈ saved → E k ≠ none) →
    (∀ k v, (k, some v) ∈ saved → putenvError k v = none) →
    restore saved E = (fun n => (saved.lookup n).getD (E n), none)
  | [], _, _, _, _ => rfl
  | (k, o) :: rest, E, hnd, hset, hval => by
    obtain ⟨hk, hnd'⟩ := List.nodup_cons.mp hnd
    have hlk : rest.lookup k = none := lookup_eq_none_of_not_mem hk
    rw [restore_cons_of_set (fun ho => hset k (ho ▸ List.mem_cons_self _ _))
        (fun v ho => hval k v (ho ▸ List.mem_cons_self _ _)),
      restore_ok rest _ hnd' (fun k' hm => by
          rw [Function.update_noteq fun h => hk (List.mem_map.mpr ⟨_, hm, h⟩)]
          exact hset k' (List.mem_cons_of_mem _ hm))
        fun k' v hm => hval k' v (List.mem_cons_of_mem _ hm)]
    congr 1; funext n
    by_cases hn : n = k
    · subst hn; simp [lookup_cons_ite, hlk]
    · simp [lookup_cons_ite, hn]

/-- When a name saved as `None` is unset again when the `finally` block runs and
    `os.putenv` accepts every saved value, `del` raises `KeyError` (at the first such
    name) and the names after it keep the values the body left. -/
theorem restore_raises : ∀ (saved : List (String × Option String)) (E : Env),
    (saved.map Prod.fst).Nodup → (∀ k v, (k, some v) ∈ saved → putenvError k v = none) →
    (∃ k, (k, none) ∈ saved ∧ E k = none) → ∃ k, (restore saved E).2 = some (.keyError k)
  | [], _, _, _, ⟨_, hm, _⟩ => absurd hm (List.not_mem_nil _)
  | (k, o) :: rest, E, hnd, hval, ⟨j, hm, hj⟩ => by
    obtain ⟨hk, hnd'⟩ := List.nodup_cons.mp hnd
    by_cases hdel : o = none ∧ E k = none
    · obtain ⟨rfl, hE⟩ := hdel
      exact ⟨k, by rw [restore_del_of_unset hE]⟩
    · -- `k` is put back, and `j` is a later name
      have hne : j ≠ k := by
        rintro rfl
        rcases List.mem_cons.mp hm with h | h
        · exact hdel ⟨(Prod.mk.inj h).2.symm, hj⟩
        · exact hk (List.mem_map.mpr ⟨_, h, rfl⟩)
      rw [restore_cons_of_set (fun ho hE => hdel ⟨ho, hE⟩)
        fun v ho => hval k v (ho ▸ List.mem_cons_self _ _)]
      exact restore_raises rest _ hnd' (fun k' v hm => hval k' v (List.mem_cons_of_mem _ hm))
        ⟨j, (List.mem_cons.mp hm).resolve_left (by simp [hne]), by rwa [Function.update_noteq hne]⟩

end restore

/-! ## Section 4: `environ` -/

/-- The saved values, looked up by name. -/
theorem lookup_originalEnv (envVars : List (String × String)) (E : Env) (n : String) :
    (originalEnv envVars E).lookup n =
      if n ∈ envVars.map Prod.fst then some (E n) else none := by
  induction envVars with
  | nil => rfl
  | cons kv envVars ih =>
    simp only [originalEnv, List.map_cons, lookup_cons_ite, List.mem_cons] at ih ⊢
    by_cases h : n = kv.1
    · simp [h]
    · rw [if_neg h, ih]; simp only [h, false_or]

theorem originalEnv_keys (envVars : List (String × String)) (E : Env) :
    (originalEnv envVars E).map Prod.fst = envVars.map Prod.fst := by
  simp [originalEnv]

theorem mem_originalEnv {envVars : List (String × String)} {E : Env} {k : String}
    {o : Option String} : (k, o) ∈ originalEnv envVars E ↔ k ∈ envVars.map Prod.fst ∧ E k = o := by
  simp only [originalEnv, List.mem_map, Prod.mk.injEq]
  constructor
  · rintro ⟨k, hk, rfl, rfl⟩; exact ⟨hk, rfl⟩
  · rintro ⟨hk, rfl⟩; exact ⟨k, hk, rfl, rfl⟩

/-- The values saved for the scoped names can be set back when `os.putenv` accepts each
    scoped name with its value on entry. -/
theorem originalEnv_valid {envVars : List (String × String)} {E : Env}
    (hE : ∀ k ∈ envVars.map Prod.fst, ∀ v, E k = some v → putenvError k v = none) :
    ∀ k v, (k, some v) ∈ originalEnv envVars E → putenvError k v = none :=
  fun k v hm => hE k (mem_originalEnv.mp hm).1 v (mem_originalEnv.mp hm).2

/-- `environ` as its three steps when `os.putenv` accepts every scoped name: save, run the
    body on the updated environment, restore. -/
theorem environ_eq (envVars : List (String × String)) (body : Env → Env × Option PyExc)
    (E : Env) (hvalid : ∀ kv ∈ envVars, putenvError kv.1 kv.2 = none) :
    environ envVars body E =
      ((restore (originalEnv envVars E) (body (E.setAll envVars)).1).1,
        (restore (originalEnv envVars E) (body (E.setAll envVars)).1).2.or
          (body (E.setAll envVars)).2) := by
  unfold environ
  rw [Env.update_of_valid E envVars hvalid]

/-- When `os.putenv` accepts every scoped name, with its new value and with its value on
    entry, and the body leaves set each scoped name that was unset on entry, `environ`
    gives every scoped name its value from entry back, leaves every other name as the
    body left it, and lets the body's exception through. -/
theorem environ_restores (envVars : List (String × String)) (hnd : (envVars.map Prod.fst).Nodup)
    (hvalid : ∀ kv ∈ envVars, putenvError kv.1 kv.2 = none)
    (body : Env → Env × Option PyExc) (E : Env)
    (hE : ∀ k ∈ envVars.map Prod.fst, ∀ v, E k = some v → putenvError k v = none)
    (hset : ∀ k ∈ envVars.map Prod.fst, E k = none → (body (E.setAll envVars)).1 k ≠ none) :
    (environ envVars body E).2 = (body (E.setAll envVars)).2 ∧
    ∀ n, (environ envVars body E).1 n =
      if n ∈ envVars.map Prod.fst then E n else (body (E.setAll envVars)).1 n := by
  rw [environ_eq envVars body E hvalid, restore_ok _ _ ((originalEnv_keys envVars E).symm ▸ hnd)
    (fun k hm => hset k (mem_originalEnv.mp hm).1 (mem_originalEnv.mp hm).2) (originalEnv_valid hE)]
  refine ⟨rfl, fun n => ?_⟩
  simp only [lookup_originalEnv]
  split <;> rfl

/-- The body that ends normally and changes nothing. -/
def passBody (E : Env) : Env × Option PyExc := (E, none)

theorem environ_restores_pass :
    (environ [("A", "1")] passBody (fun _ => none)).2 =
      (passBody (Env.setAll (fun _ => none) [("A", "1")])).2 ∧
    ∀ n, (environ [("A", "1")] passBody (fun _ => none)).1 n =
      if n ∈ [("A", "1")].map Prod.fst then none
      else (passBody (Env.setAll (fun _ => none) [("A", "1")])).1 n :=
  environ_restores [("A", "1")] (by decide) (by decide) passBody (fun _ => none)
    (fun _ _ _ h => nomatch h) (by decide)

/-- When `os.putenv` accepts every scoped name, with its new value and with its value on
    entry, and the body unsets a scoped name that was unset on entry, `environ` raises
    `KeyError` on exit, whatever the body raised. -/
theorem environ_raises (envVars : List (String × String)) (hnd : (envVars.map Prod.fst).Nodup)
    (hvalid : ∀ kv ∈ envVars, putenvError kv.1 kv.2 = none)
    (body : Env → Env × Option PyExc) (E : Env)
    (hE : ∀ k ∈ envVars.map Prod.fst, ∀ v, E k = some v → putenvError k v = none)
    (hunset : ∃ k ∈ envVars.map Prod.fst, E k = none ∧ (body (E.setAll envVars)).1 k = none) :
    ∃ k, (environ envVars body E).2 = some (.keyError k) := by
  obtain ⟨k, hk, hE₀, hb⟩ := hunset
  obtain ⟨j, hj⟩ := restore_raises (originalEnv envVars E) (body (E.setAll envVars)).1
    ((originalEnv_keys envVars E).symm ▸ hnd) (originalEnv_valid hE)
    ⟨k, mem_originalEnv.mpr ⟨hk, hE₀⟩, hb⟩
  exact ⟨j, by rw [environ_eq envVars body E hvalid]; exact congrArg (Option.or · _) hj⟩

/-- The body `del os.environ["A"]`, ending normally. -/
def delABody (E : Env) : Env × Option PyExc :=
  match E.delItem "A" with
  | .ok E' => (E', none)
  | .error exc => (E, some exc)

theorem environ_del_scoped_name_raises :
    ∃ k, (environ [("A", "1"), ("B", "2")] delABody
      (Function.update (fun _ => none) "B" (some "0"))).2 = some (.keyError k) :=
  environ_raises [("A", "1"), ("B", "2")] (by decide) (by decide) delABody _
    (fun k hk v hv => by
      by_cases hB : k = "B"
      · subst hB
        cases (Function.update_same "B" (some "0") (fun _ => none)).symm.trans hv
        decide
      · rw [Function.update_noteq hB] at hv
        cases hv)
    ⟨"A", by decide, rfl, rfl⟩

/-- With `A` unset and `B` set to `"0"` on entry, `with environ({"A": "1", "B": "2"})`
    around `del os.environ["A"]` raises `KeyError("A")` on exit, though the body raised
    nothing, and leaves `B` at `"2"`. -/
theorem environ_del_scoped_name :
    (environ [("A", "1"), ("B", "2")] delABody (Function.update (fun _ => none) "B" (some "0"))).2 =
      some (.keyError "A") ∧
    (environ [("A", "1"), ("B", "2")] delABody
      (Function.update (fun _ => none) "B" (some "0"))).1 "B" = some "2" := by
  decide

/-- When `os.putenv` refuses a scoped name or its value, `environ` raises what it raises
    before the body runs: the names before it in `env_vars` keep their new values and
    nothing is restored. -/
theorem environ_putenv_raises (pre post : List (String × String)) {key value : String}
    {exc : PyExc} (hpre : ∀ kv ∈ pre, putenvError kv.1 kv.2 = none)
    (hkey : putenvError key value = some exc) (body : Env → Env × Option PyExc) (E : Env) :
    environ (pre ++ (key, value) :: post) body E = (E.setAll pre, some exc) := by
  unfold environ
  rw [Env.update_of_invalid E pre post hpre hkey]

/-- `with environ({"A": "1", "B=C": "2"})`: `A` is set, then `os.putenv` refuses `B=C`, so
    `ValueError` propagates and `A` keeps `"1"`. -/
theorem environ_illegal_name :
    (∀ kv ∈ [("A", "1")], putenvError kv.1 kv.2 = none) ∧
    putenvError "B=C" "2" = some (.valueError "illegal environment variable name") ∧
    environ ([("A", "1")] ++ ("B=C", "2") :: []) passBody (fun _ => none) =
      (Env.setAll (fun _ => none) [("A", "1")],
        some (.valueError "illegal environment variable name")) :=
  ⟨by decide, by decide, environ_putenv_raises [("A", "1")] [] (by decide) (by decide) passBody _⟩

end Cosmos
