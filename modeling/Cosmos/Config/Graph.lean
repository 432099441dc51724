import Cosmos.Config.Refinement

/-! # The loop on a config with shared mappings

    A YAML alias of an anchored mapping loads as the same dict object, so a config
    loaded from a document with anchors is a graph of objects, not a tree, and
    `_set_nested_key` writes through it in place: a write at one path shows at every
    other path to an object it changes. This module finds what the loop still
    guarantees there. It needs one thing of the loaded objects: every dict object a
    key's walk passes through, one at a proper prefix of a key's path, is reached from
    the root along that prefix only (`Heap.WalkUnshared`). Objects elsewhere may be
    shared, and so may the object at a key's own path, which the key replaces: keys
    without a dot meet it on every config whose root no slot refers to
    (`Heap.walkUnshared_of_top_level`).

    The argument follows the data:

    * `setNested_writes`: one key writes one slot of one old object, the first on its
      walk that holds no dict there, and puts in it fresh objects holding the rest of
      the key's path down to the value (`chain`); every other old object is kept;
    * `Writes.lookup_of_not_through`, `Writes.lookup_through`: a path that does not run
      through the written slot finds what it found before, one that does reads the
      fresh objects;
    * `Writes.view`: so the view of the objects takes one `Op.step`;
    * `Writes.walkUnshared`: paths to old objects only disappear and every fresh object
      has one path, so the hypothesis holds again for the next key.

    Then the loop is `runView` on the view of the objects (`applyKeysLoop_view`) and
    meets the law of `Cosmos.Config.Apply`. Section 6 shows what goes wrong when the
    hypothesis fails.
-/

namespace Cosmos

/-! ## Section 1: Closed heaps and the view of the objects -/

/-- Whether a reference stays below the address `n`: any value does, an object does when
    it was allocated before `n`. -/
def Ref.below (n : Nat) : Ref → Bool
  | .obj a => decide (a < n)
  | .val _ _ => true

theorem Ref.below_mono {r : Ref} {n n' : Nat} (h : r.below n) (hn : n ≤ n') : r.below n' := by
  cases r <;> simp_all [Ref.below]; omega

/-- Every slot of an allocated object refers to an allocated object, as in every heap
    `yaml.safe_load` returns. -/
def Heap.Closed (h : Heap) : Prop := ∀ a < h.next, ∀ kr ∈ h.objs a, kr.2.below h.next

instance (h : Heap) : Decidable h.Closed :=
  inferInstanceAs (Decidable (∀ a < h.next, ∀ kr ∈ h.objs a, kr.2.below h.next = true))

/-- What a reference shows at its own path: a dict, or the value it holds. -/
def Ref.shape : Ref → Value
  | .obj _ => .dict []
  | .val v _ => v

/-- The view of the objects from the config object `root`. -/
def Heap.view (h : Heap) (root : Nat) : View := fun q => (h.lookup (.obj root) q).map Ref.shape

/-- Every dict object a key's walk passes through, the one at a proper prefix of a key's
    path, is reached from the root along that prefix only. -/
def Heap.WalkUnshared (h : Heap) (root : Nat) (paths : List (List Scalar)) : Prop :=
  ∀ p ∈ paths, ∀ d, d <+: p → d ≠ p → ∀ m, h.lookup (.obj root) d = some (.obj m) →
    ∀ d', h.lookup (.obj root) d' = some (.obj m) → d' = d

@[simp] theorem Heap.lookup_obj_cons (h : Heap) (a : Nat) (k : Scalar) (ks : List Scalar) :
    h.lookup (.obj a) (k :: ks) = ((h.objs a).lookup k).bind fun r => h.lookup r ks := rfl

@[simp] theorem Heap.lookup_val_cons (h : Heap) (v : Value) (hv : v.isDict = false) (k : Scalar)
    (ks : List Scalar) : h.lookup (.val v hv) (k :: ks) = none := rfl

/-- Looking up `p ++ q` is looking up `q` from what `p` finds. -/
theorem Heap.lookup_append (h : Heap) (p q : List Scalar) : ∀ r : Ref,
    h.lookup r (p ++ q) = (h.lookup r p).bind fun r' => h.lookup r' q := by
  induction p with
  | nil => intro r; simp
  | cons k p ih =>
    intro r
    cases r with
    | obj a => simp only [List.cons_append, Heap.lookup_obj_cons, Option.bind_assoc, ih]
    | val v hv => rfl

/-- A value is never walked into, so it leads to no object. -/
theorem Heap.lookup_val_ne_obj (h : Heap) {v : Value} {hv : v.isDict = false} :
    ∀ (q : List Scalar) (a : Nat), h.lookup (.val v hv) q ≠ some (.obj a)
  | [], a => by simp
  | _ :: _, _ => by simp

/-- The path to an object runs through objects. -/
theorem Heap.lookup_prefix_obj {h : Heap} {r : Ref} {q x : List Scalar} {m : Nat}
    (hl : h.lookup r (q ++ x) = some (.obj m)) : ∃ a, h.lookup r q = some (.obj a) := by
  rw [Heap.lookup_append] at hl
  obtain ⟨r', hr', hx⟩ := Option.bind_eq_some.mp hl
  cases r' with
  | obj a => exact ⟨a, hr'⟩
  | val v hv => exact absurd hx (h.lookup_val_ne_obj x m)

section closed
variable {h : Heap}

theorem Heap.Closed.lookup_lt (hc : h.Closed) {a b : Nat} {k : Scalar} (ha : a < h.next)
    (hl : (h.objs a).lookup k = some (.obj b)) : b < h.next := by
  simpa [Ref.below] using hc a ha _ (mem_of_lookup_eq_some hl)

/-- In a closed heap, a path from an allocated object leads to allocated objects. -/
theorem Heap.Closed.lookup_below (hc : h.Closed) :
    ∀ (q : List Scalar) {r : Ref} {a : Nat}, r.below h.next → h.lookup r q = some (.obj a) →
      a < h.next
  | [], r, a, hr, hl => by
    obtain rfl : r = .obj a := by simpa using hl
    simpa [Ref.below] using hr
  | _ :: _, .val _ _, _, _, hl => by simp at hl
  | k :: q, .obj b, a, hr, hl => by
    obtain ⟨r', hr', hq⟩ := Option.bind_eq_some.mp hl
    refine hc.lookup_below q ?_ hq
    cases r' with
    | obj c => simpa [Ref.below] using hc.lookup_lt (by simpa [Ref.below] using hr) hr'
    | val => rfl

theorem Heap.Closed.alloc (hc : h.Closed) {es : List (Scalar × Ref)}
    (hes : ∀ kr ∈ es, kr.2.below (h.next + 1)) : (h.alloc es).Closed := by
  intro a ha kr hkr
  rw [Heap.alloc_objs] at hkr
  split at hkr
  · exact hes kr hkr
  · rw [Heap.alloc_next] at ha ⊢
    exact Ref.below_mono (hc a (by omega) kr hkr) (Nat.le_succ _)

theorem Heap.Closed.store (hc : h.Closed) {a : Nat} (ha : a < h.next) (k : Scalar) {r : Ref}
    (hr : r.below h.next) : (h.store a k r).Closed := by
  intro b hb kr hkr
  rw [Heap.store_objs] at hkr
  rw [Heap.store_next] at hb ⊢
  split at hkr
  · subst_vars
    rcases mem_assign hkr with rfl | hkr
    exacts [hr, hc _ ha kr hkr]
  · exact hc b hb kr hkr

mutual
/-- The objects of a converted value keep the heap closed. -/
theorem allocValue_closed : ∀ (v : Value) (h : Heap), h.Closed →
    (allocValue v h).2.Closed ∧ (allocValue v h).1.below (allocValue v h).2.next
  | .scalar _, _, hc => ⟨hc, rfl⟩
  | .list _, _, hc => ⟨hc, rfl⟩
  | .dict e, h, hc => by
    obtain ⟨hc₁, hes⟩ := allocEntries_closed e h hc
    simp only [allocValue]
    generalize allocEntries e h = p at hc₁ hes ⊢
    obtain ⟨es, h₁⟩ := p
    exact ⟨hc₁.alloc fun kr hkr => Ref.below_mono (hes kr hkr) (Nat.le_succ _), by simp [Ref.below]⟩

theorem allocEntries_closed : ∀ (e : Entries) (h : Heap), h.Closed →
    (allocEntries e h).2.Closed ∧ ∀ kr ∈ (allocEntries e h).1, kr.2.below (allocEntries e h).2.next
  | [], _, hc => ⟨hc, by simp [allocEntries]⟩
  | (k, v) :: e, h, hc => by
    obtain ⟨hc₁, hr⟩ := allocValue_closed v h hc
    have hle := (allocEntries_holds e (allocValue v h).2).1.1
    obtain ⟨hc₂, hrs⟩ := allocEntries_closed e _ hc₁
    simp only [allocEntries]
    generalize allocValue v h = p at hc₁ hr hle hc₂ hrs ⊢
    obtain ⟨r, h₁⟩ := p
    generalize allocEntries e h₁ = p at hle hc₂ hrs ⊢
    obtain ⟨rs, h₂⟩ := p
    refine ⟨hc₂, ?_⟩
    rintro kr (_ | ⟨_, hkr⟩)
    exacts [Ref.below_mono hr hle, hrs kr hkr]
end

end closed

/-! ## Section 2: What one key writes -/

/-- `w` under the nested dicts `{k₁: {k₂: ... w}}` of the keys `ks`: what a key leaves
    below the first segment where its walk finds no dict. -/
def chain : List Scalar → Value → Value
  | [], w => w
  | k :: ks, w => .dict [(k, chain ks w)]

@[simp] theorem chain_lookup_append (w : Value) : ∀ t u : List Scalar,
    (chain t w).lookup (t ++ u) = w.lookup u
  | [], _ => rfl
  | k :: t, u => by simp [chain, lookup_cons_ite, chain_lookup_append w t u]

/-- Above the end of a chain there are dicts. -/
theorem chain_view_of_lt (w : Value) : ∀ {t u : List Scalar}, u <+: t → u ≠ t →
    (chain t w).view u = some (.dict [])
  | [], _, hu, hne => absurd (List.prefix_nil.mp hu) hne
  | _ :: _, [], _, _ => rfl
  | k :: t, j :: u, hu, hne => by
    obtain ⟨rfl, hu'⟩ := List.cons_prefix_cons.mp hu
    simpa [Value.view, chain, lookup_cons_ite] using chain_view_of_lt w hu' (fun h => hne (h ▸ rfl))

/-- Beside a chain there is nothing. -/
theorem chain_lookup_of_incomparable (w : Value) : ∀ {t u : List Scalar}, Incomparable t u →
    (chain t w).lookup u = none
  | [], _, h => absurd List.nil_prefix h.1
  | _ :: _, [], h => absurd List.nil_prefix h.2
  | k :: t, j :: u, h => by
    by_cases hjk : j = k
    · subst hjk
      simpa [chain, lookup_cons_ite] using chain_lookup_of_incomparable w
        ⟨fun h' => h.1 ((List.prefix_cons_inj _).mpr h'), fun h' => h.2 ((List.prefix_cons_inj _).mpr h')⟩
    · simp [chain, lookup_cons_ite, hjk]

/-- What one key does to the objects: the slot `s` of the old object `m`, reached from
    `cur` along `d`, now refers to fresh objects holding the rest of the key's path `P`
    down to the value `w`, and every other old object is kept. The slot held no dict
    object before, unless it is the key's last segment. -/
structure Writes (h h' : Heap) (cur : Nat) (P : List Scalar) (w : Value) (d : List Scalar)
    (s : Scalar) (m : Nat) (r : Ref) : Prop where
  along : d ++ [s] <+: P
  reach : h.lookup (.obj cur) d = some (.obj m)
  replaced : ∀ b, (h.objs m).lookup s = some (.obj b) → d ++ [s] = P
  slot : h'.objs m = assign (h.objs m) s r
  keep : ∀ a < h.next, a ≠ m → h'.objs a = h.objs a
  grows : h.next ≤ h'.next
  fresh : ∃ fp, Holds h' r (chain (P.drop (d.length + 1)) w) fp ∧ ∀ a ∈ fp, h.next ≤ a
  closed : h'.Closed

/-- The effect lemma: `_set_nested_key`'s loop from `cur` on a closed heap writes as
    `Writes` says. -/
theorem setNested_writes (key : String) (w : Value) : ∀ (ks : List String) (h : Heap) (cur : Nat),
    ks ≠ [] → h.Closed → cur < h.next →
    ∃ d s m r, Writes h (setNested key (some w) ks h cur).1 cur (ks.map .str) w d s m r
  | [], _, _, hks, _, _ => absurd rfl hks
  | [final], h, cur, _, hc, hcur => by
    obtain ⟨hext, fp, hw, hfresh⟩ := allocValue_holds w h
    have hcl := allocValue_closed w h hc
    simp only [setNested]
    generalize allocValue w h = p at hext hw hfresh hcl ⊢
    obtain ⟨r, h₁⟩ := p
    have hcur₁ : cur < h₁.next := lt_of_lt_of_le hcur hext.1
    refine ⟨[], .str final, cur, r, List.prefix_rfl, by simp, fun _ _ => rfl, ?_, fun a ha hne => ?_,
      hext.1, ⟨fp, hw.frame fun a ha => ⟨?_, hw.lt_next a ha⟩, hfresh⟩, hcl.1.store hcur₁ _ hcl.2⟩
    · rw [Heap.store_objs, if_pos rfl, hext.2 cur hcur]
    · rw [Heap.store_objs, if_neg hne, hext.2 a ha]
    · have := hfresh a ha
      rw [Heap.store_objs, if_neg (by omega)]
  | k :: k' :: ks, h, cur, _, hc, hcur => by
    by_cases hobj : ∃ a, (h.objs cur).lookup (.str k) = some (.obj a)
    · -- a dict under `k`: the write happens further down
      obtain ⟨a, hl⟩ := hobj
      obtain ⟨d, s, m, r, hW⟩ := setNested_writes key w (k' :: ks) h a (List.cons_ne_nil _ _) hc
        (hc.lookup_lt hcur hl)
      rw [setNested_of_obj hl]
      exact ⟨.str k :: d, s, m, r, (List.prefix_cons_inj _).mpr hW.along, by simp [hl, hW.reach],
        fun b hb => congrArg (List.cons (Scalar.str k)) (hW.replaced b hb), hW.slot, hW.keep, hW.grows,
        hW.fresh, hW.closed⟩
    · -- anything else under `k`: the slot gets a fresh `{}`, which the rest fills
      push_neg at hobj
      set h₀ := (h.alloc []).store cur (.str k) (.obj h.next) with hh₀
      have hne : cur ≠ h.next := Nat.ne_of_lt hcur
      have hobjs₀ : ∀ b, h₀.objs b = if b = cur then assign (h.objs cur) (.str k) (.obj h.next)
          else if b = h.next then [] else h.objs b := fun b => by
        simp only [hh₀, Heap.store_objs, Heap.alloc_objs, if_neg hne]
      have hc₀ : h₀.Closed := (hc.alloc (by simp)).store (by simp; omega) _ (by simp [Ref.below])
      obtain ⟨d, s, m, r, hW⟩ := setNested_writes key w (k' :: ks) h₀ h.next (List.cons_ne_nil _ _)
        hc₀ (by simp [hh₀])
      -- the fresh `{}` is empty, so the write below it goes into its slot `k'`
      obtain ⟨rfl, rfl⟩ : d = [] ∧ m = h.next := by
        have hreach := hW.reach
        cases d with
        | nil => exact ⟨rfl, (by simpa using hreach : h.next = m).symm⟩
        | cons j d => simp [hobjs₀, Ne.symm hne] at hreach
      obtain rfl : s = .str k' := by simpa using hW.along
      obtain ⟨fp, Hr, hfresh⟩ := hW.fresh
      have hslot : (setNested key (some w) (k' :: ks) h₀ h.next).1.objs h.next = [(.str k', r)] := by
        rw [hW.slot, hobjs₀, if_neg hne.symm, if_pos rfl]; rfl
      rw [setNested_fst_of_not_obj hobj]
      refine ⟨[], .str k, cur, .obj h.next, by simp, by simp, fun b hb => absurd hb (hobj b), ?_,
        fun a ha hac => ?_, (Nat.le_succ _).trans hW.grows,
        ⟨insert h.next (fp ∪ ∅), .obj (by rw [hslot]; exact .cons Hr .nil (Set.disjoint_empty _))
          (fun hmem => ?_) (lt_of_lt_of_le (Nat.lt_succ_self _) hW.grows), ?_⟩, hW.closed⟩
      · rw [hW.keep cur (by simp [hh₀]; omega) hne, hobjs₀, if_pos rfl]
      · rw [hW.keep a (by simp [hh₀]; omega) (Nat.ne_of_lt ha), hobjs₀, if_neg hac,
          if_neg (Nat.ne_of_lt ha)]
      · have := hfresh _ (by simpa using hmem)
        simp [hh₀] at this
      · rintro a (rfl | ha)
        · exact le_rfl
        · have := hfresh a (by simpa using ha)
          simp [hh₀] at this; omega

/-! ## Section 3: Lookups after one key -/

mutual
/-- The objects a tree is held through are the ones its paths lead to. -/
theorem Holds.lookup_mem {h : Heap} : ∀ {r v fp}, Holds h r v fp →
    ∀ q a, h.lookup r q = some (.obj a) → a ∈ fp
  | _, _, _, .val _, q, a, hl => absurd hl (h.lookup_val_ne_obj q a)
  | _, _, _, .obj _ _ _, [], _, hl => by
    obtain rfl := Ref.obj.inj (Option.some.inj hl)
    exact Set.mem_insert _ _
  | _, _, _, .obj he _ _, k :: q, a, hl => Or.inr (HoldsEntries.lookup_mem he k q a hl)

theorem HoldsEntries.lookup_mem {h : Heap} : ∀ {rs e fp}, HoldsEntries h rs e fp →
    ∀ k q a, (rs.lookup k).bind (fun r => h.lookup r q) = some (.obj a) → a ∈ fp
  | _, _, _, .nil, _, _, _, hl => by simp at hl
  | _, _, _, .cons hr hrs _, k, q, a, hl => by
    rw [lookup_cons_ite] at hl
    split at hl
    · exact Or.inl (Holds.lookup_mem hr q a hl)
    · exact Or.inr (HoldsEntries.lookup_mem hrs k q a hl)
end

mutual
/-- In a tree, each object is reached along one path. -/
theorem Holds.lookup_unique {h : Heap} : ∀ {r v fp}, Holds h r v fp →
    ∀ {q q' a}, h.lookup r q = some (.obj a) → h.lookup r q' = some (.obj a) → q = q'
  | _, _, _, .val _, q, _, a, hl, _ => absurd hl (h.lookup_val_ne_obj q a)
  | _, _, _, .obj _ _ _, [], [], _, _, _ => rfl
  | _, _, _, .obj he hn _, [], k :: q', a, hl, hl' => by
    obtain rfl := Ref.obj.inj (Option.some.inj hl)
    exact absurd (HoldsEntries.lookup_mem he k q' _ hl') hn
  | _, _, _, .obj he hn _, k :: q, [], a, hl, hl' => by
    obtain rfl := Ref.obj.inj (Option.some.inj hl')
    exact absurd (HoldsEntries.lookup_mem he k q _ hl) hn
  | _, _, _, .obj he _ _, _ :: _, _ :: _, _, hl, hl' => by
    obtain ⟨rfl, rfl⟩ := HoldsEntries.lookup_unique he hl hl'
    rfl

theorem HoldsEntries.lookup_unique {h : Heap} : ∀ {rs e fp}, HoldsEntries h rs e fp →
    ∀ {k k' q q' a}, (rs.lookup k).bind (fun r => h.lookup r q) = some (.obj a) →
      (rs.lookup k').bind (fun r => h.lookup r q') = some (.obj a) → k = k' ∧ q = q'
  | _, _, _, .nil, _, _, _, _, _, hl, _ => by simp at hl
  | _, _, _, .cons hr hrs hd, k, k', q, q', a, hl, hl' => by
    rw [lookup_cons_ite] at hl hl'
    split at hl <;> split at hl'
    · exact ⟨by subst_vars; rfl, Holds.lookup_unique hr hl hl'⟩
    · exact absurd (HoldsEntries.lookup_mem hrs k' q' a hl')
        (Set.disjoint_left.mp hd (Holds.lookup_mem hr q a hl))
    · exact absurd (HoldsEntries.lookup_mem hrs k q a hl)
        (Set.disjoint_left.mp hd (Holds.lookup_mem hr q' a hl'))
    · exact HoldsEntries.lookup_unique hrs hl hl'
end

/-- A config loaded without aliased mappings meets `Heap.WalkUnshared` for every key. -/
theorem Holds.walkUnshared {h : Heap} {root : Nat} {v : Value} {fp : Set Nat}
    (H : Holds h (.obj root) v fp) (paths : List (List Scalar)) : h.WalkUnshared root paths :=
  fun _ _ _ _ _ _ hm _ hd' => H.lookup_unique hd' hm

/-- A path that ends at an object ends in a slot that refers to it. -/
theorem Heap.lookup_concat_obj {h : Heap} {r : Ref} {q : List Scalar} {k : Scalar} {a : Nat}
    (hl : h.lookup r (q ++ [k]) = some (.obj a)) : ∃ b, (h.objs b).lookup k = some (.obj a) := by
  rw [Heap.lookup_append] at hl
  obtain ⟨r', -, hk⟩ := Option.bind_eq_some.mp hl
  cases r' with
  | obj b => exact ⟨b, by simpa using hk⟩
  | val v hv => simp at hk

/-- Keys without a dot walk through the root alone, so they meet `Heap.WalkUnshared` on a
    config whose root object no slot refers to, whatever else is aliased. -/
theorem Heap.walkUnshared_of_top_level {h : Heap} {root : Nat}
    (hroot : ∀ b k, (h.objs b).lookup k ≠ some (.obj root)) {paths : List (List Scalar)}
    (hlen : ∀ p ∈ paths, p.length ≤ 1) : h.WalkUnshared root paths := by
  intro p hp d hd hne m hm d' hd'
  obtain rfl : d = [] := List.eq_nil_of_length_eq_zero (by
    have := hlen p hp
    have := hd.length_le
    have : d.length ≠ p.length := fun e => hne (hd.eq_of_length e)
    omega)
  obtain rfl : root = m := by simpa using hm
  rcases d'.eq_nil_or_concat with rfl | ⟨q, k, rfl⟩
  · rfl
  · obtain ⟨b, hb⟩ := Heap.lookup_concat_obj (by simpa using hd')
    exact absurd hb (hroot b k)

theorem Value.shape_of_not_dict {v : Value} (h : v.isDict = false) : v.shape = v := by
  cases v with
  | dict => simp [Value.isDict] at h
  | _ => rfl

/-- What a reference holding a tree shows along any path is what the tree shows. -/
theorem Holds.lookup_shape {h : Heap} {r : Ref} {v : Value} {fp : Set Nat} (H : Holds h r v fp)
    (q : List Scalar) : (h.lookup r q).map Ref.shape = v.view q := by
  have hrel := H.lookup q
  unfold Value.view
  generalize h.lookup r q = a at hrel ⊢
  generalize v.lookup q = b at hrel ⊢
  cases hrel with
  | none => rfl
  | some hr =>
    obtain ⟨_, hr⟩ := hr
    cases hr with
    | val hv => simp [Ref.shape, Value.shape_of_not_dict hv]
    | obj => rfl

section writes
variable {h h' : Heap} {cur : Nat} {P : List Scalar} {w : Value} {d : List Scalar} {s : Scalar}
  {m : Nat} {r : Ref}

/-- A path that does not run through the written slot finds what it found before, when
    the written object is reached along `d` only. -/
theorem Writes.lookup_of_not_through (hW : Writes h h' cur P w d s m r) (hc : h.Closed)
    (hcur : cur < h.next) (huniq : ∀ d', h.lookup (.obj cur) d' = some (.obj m) → d' = d) :
    ∀ (q q₀ : List Scalar) (ref : Ref), h.lookup (.obj cur) q₀ = some ref →
      ¬ d ++ [s] <+: q₀ ++ q → h'.lookup ref q = h.lookup ref q := by
  intro q
  induction q with
  | nil => intro _ ref _ _; simp
  | cons k q ih =>
    intro q₀ ref h₀ hnot
    cases ref with
    | val v hv => rfl
    | obj a =>
      have ha : a < h.next := hc.lookup_below q₀ (by simp [Ref.below, hcur]) h₀
      have hslot : (h'.objs a).lookup k = (h.objs a).lookup k := by
        by_cases ham : a = m
        · subst ham
          obtain rfl := huniq q₀ h₀
          rw [hW.slot, lookup_assign_of_ne]
          rintro rfl
          exact hnot (by simp)
        · rw [hW.keep a ha ham]
      simp only [Heap.lookup_obj_cons, hslot]
      cases hk : (h.objs a).lookup k with
      | none => rfl
      | some ref' =>
        refine ih (q₀ ++ [k]) ref' ?_ (by simpa using hnot)
        rw [Heap.lookup_append, h₀]
        simp [hk]

/-- A path through the written slot reads the fresh objects. -/
theorem Writes.lookup_through (hW : Writes h h' cur P w d s m r) (hc : h.Closed)
    (hcur : cur < h.next) (huniq : ∀ d', h.lookup (.obj cur) d' = some (.obj m) → d' = d)
    (u : List Scalar) : h'.lookup (.obj cur) (d ++ [s] ++ u) = h'.lookup r u := by
  have hd : h'.lookup (.obj cur) d = some (.obj m) := by
    rw [hW.lookup_of_not_through hc hcur huniq d [] _ (by simp)
      (fun h => absurd h.length_le (by simp)), hW.reach]
  rw [Heap.lookup_append, Heap.lookup_append, hd]
  simp [hW.slot]

/-- One key takes one step on the view, when the written object is reached along `d`
    only. -/
theorem Writes.view (hW : Writes h h' cur P w d s m r) (hc : h.Closed) (hcur : cur < h.next)
    (huniq : ∀ d', h.lookup (.obj cur) d' = some (.obj m) → d' = d) :
    h'.view cur = Op.step (P, w) (h.view cur) := by
  have hnot := hW.lookup_of_not_through hc hcur huniq
  have hthrough := hW.lookup_through hc hcur huniq
  obtain ⟨fp, Hr, -⟩ := hW.fresh
  obtain ⟨t, rfl⟩ := hW.along
  have ht : (d ++ [s] ++ t).drop (d.length + 1) = t := by simp
  rw [ht] at Hr
  funext q
  simp only [Heap.view, Op.step]
  split_ifs with hPq hqP
  · -- at and below the key's path: the value
    obtain ⟨u, rfl⟩ := hPq
    rw [List.drop_left, List.append_assoc (d ++ [s]), hthrough, Hr.lookup_shape]
    simp [Value.view]
  · by_cases hds : d ++ [s] <+: q
    · -- above the key's path, below the written slot: the fresh dicts
      obtain ⟨u, rfl⟩ := hds
      rw [hthrough, Hr.lookup_shape]
      exact chain_view_of_lt w ((List.prefix_append_right_inj _).mp hqP)
        (fun h => hPq (h ▸ List.prefix_rfl))
    · -- above the written slot: the old dicts
      have hqd : q <+: d := by
        rcases List.prefix_concat_iff.mp ((List.prefix_or_prefix_of_prefix hqP
          (List.prefix_append _ _)).resolve_right hds) with rfl | h
        · exact absurd List.prefix_rfl hds
        · exact h
      obtain ⟨x, rfl⟩ := hqd
      obtain ⟨a, ha⟩ := Heap.lookup_prefix_obj hW.reach
      rw [hnot q [] _ (by simp) (by simpa using hds), ha]
      rfl
  · by_cases hds : d ++ [s] <+: q
    · -- beside the key's path, below the written slot: nothing before, nothing after
      obtain ⟨u, rfl⟩ := hds
      have hinc : Incomparable t u := ⟨fun h => hPq ((List.prefix_append_right_inj _).mpr h),
        fun h => hqP ((List.prefix_append_right_inj _).mpr h)⟩
      rw [hthrough, Hr.lookup_shape]
      unfold Value.view
      rw [chain_lookup_of_incomparable w hinc, Heap.lookup_append, Heap.lookup_append, hW.reach]
      simp only [Option.some_bind, Heap.lookup_obj_cons, Heap.lookup_nil, Option.bind_some]
      rcases hslot : (h.objs m).lookup s with _ | ⟨b | ⟨v, hv⟩⟩
      · rfl
      · exact absurd ((hW.replaced b hslot) ▸ List.prefix_append _ _) hPq
      · cases u with
        | nil => exact absurd (by simp) hqP
        | cons => rfl
    · -- beside the written slot: untouched
      rw [hnot q [] _ (by simp) (by simpa using hds)]

/-- Paths to old objects only disappear. -/
theorem Writes.lookup_old (hW : Writes h h' cur P w d s m r) (hc : h.Closed)
    (hcur : cur < h.next) (huniq : ∀ d', h.lookup (.obj cur) d' = some (.obj m) → d' = d)
    {q : List Scalar} {a : Nat} (hl : h'.lookup (.obj cur) q = some (.obj a)) (ha : a < h.next) :
    h.lookup (.obj cur) q = some (.obj a) := by
  by_cases hds : d ++ [s] <+: q
  · obtain ⟨u, rfl⟩ := hds
    obtain ⟨fp, Hr, hfresh⟩ := hW.fresh
    rw [hW.lookup_through hc hcur huniq] at hl
    exact absurd (hfresh a (Hr.lookup_mem u a hl)) (Nat.not_le.mpr ha)
  · rwa [← hW.lookup_of_not_through hc hcur huniq q [] _ (by simp) (by simpa using hds)]

/-- A fresh object is reached through the written slot only. -/
theorem Writes.lookup_fresh (hW : Writes h h' cur P w d s m r) (hc : h.Closed)
    (hcur : cur < h.next) (huniq : ∀ d', h.lookup (.obj cur) d' = some (.obj m) → d' = d)
    {q : List Scalar} {a : Nat} (hl : h'.lookup (.obj cur) q = some (.obj a)) (ha : h.next ≤ a) :
    ∃ u, q = d ++ [s] ++ u ∧ h'.lookup r u = some (.obj a) := by
  by_cases hds : d ++ [s] <+: q
  · obtain ⟨u, rfl⟩ := hds
    exact ⟨u, rfl, by rwa [hW.lookup_through hc hcur huniq] at hl⟩
  · rw [hW.lookup_of_not_through hc hcur huniq q [] _ (by simp) (by simpa using hds)] at hl
    exact absurd (hc.lookup_below q (by simp [Ref.below, hcur]) hl) (Nat.not_lt.mpr ha)

/-- The hypothesis holds again after the key. -/
theorem Writes.walkUnshared (hW : Writes h h' cur P w d s m r) (hc : h.Closed)
    (hcur : cur < h.next) (huniq : ∀ d', h.lookup (.obj cur) d' = some (.obj m) → d' = d)
    {paths : List (List Scalar)} (hwu : h.WalkUnshared cur paths) : h'.WalkUnshared cur paths := by
  intro p hp d₁ hd₁ hne m₁ hm₁ d' hd'
  by_cases hold : m₁ < h.next
  · exact hwu p hp d₁ hd₁ hne m₁ (hW.lookup_old hc hcur huniq hm₁ hold) d'
      (hW.lookup_old hc hcur huniq hd' hold)
  · obtain ⟨u₁, rfl, hu₁⟩ := hW.lookup_fresh hc hcur huniq hm₁ (Nat.not_lt.mp hold)
    obtain ⟨u', rfl, hu'⟩ := hW.lookup_fresh hc hcur huniq hd' (Nat.not_lt.mp hold)
    obtain ⟨fp, Hr, -⟩ := hW.fresh
    rw [Hr.lookup_unique hu' hu₁]

end writes

/-! ## Section 4: The loop -/

/-- The invariant of the loop on the config object `root`: a closed heap, `root`
    allocated, and the objects on the walks of `paths` reached along one path each. -/
structure LoopInv (h : Heap) (root : Nat) (paths : List (List Scalar)) : Prop where
  closed : h.Closed
  root_lt : root < h.next
  unshared : h.WalkUnshared root paths

/-- One key keeps the invariant and takes one step on the view. -/
theorem setNested_step (key : String) (w : Value) {h : Heap} {root : Nat}
    {paths : List (List Scalar)} (inv : LoopInv h root paths) (hp : keyPath key ∈ paths) :
    LoopInv (setNested key (some w) (splitKey key) h root).1 root paths ∧
      (setNested key (some w) (splitKey key) h root).1.view root =
        Op.step (keyPath key, w) (h.view root) := by
  obtain ⟨d, s, m, r, hW⟩ := setNested_writes key w (splitKey key) h root (splitKey_ne_nil key)
    inv.closed inv.root_lt
  have huniq : ∀ d', h.lookup (.obj root) d' = some (.obj m) → d' = d :=
    inv.unshared _ hp d ((List.prefix_append _ _).trans hW.along)
      (fun h => by simpa [h, keyPath] using hW.along.length_le) m hW.reach
  exact ⟨⟨hW.closed, lt_of_lt_of_le inv.root_lt hW.grows,
    hW.walkUnshared inv.closed inv.root_lt huniq inv.unshared⟩,
    hW.view inv.closed inv.root_lt huniq⟩

/-- The loop over keys whose values all convert raises nothing, keeps the invariant and
    is `runView` of the keys' writes on the view of the objects. -/
theorem applyKeysLoop_view (py : PyParsers) {paths : List (List Scalar)} :
    ∀ (items : List (String × String)) {ops : List Op} {h : Heap} {root : Nat},
    keyOps py items = .ok ops → (∀ kv ∈ items, keyPath kv.1 ∈ paths) → LoopInv h root paths →
    (applyKeysLoop py items h root).raised = none ∧
      LoopInv (applyKeysLoop py items h root).heap root paths ∧
      (applyKeysLoop py items h root).heap.view root = runView ops (h.view root)
  | [], _, _, _, hops, _, inv => by cases hops; exact ⟨rfl, inv, rfl⟩
  | (k, v) :: rest, _, h, root, hops, hpaths, inv => by
    obtain ⟨w, ops', hw, hops', rfl⟩ := keyOps_cons_eq_ok.mp hops
    obtain ⟨inv₁, hv₁⟩ := setNested_step k w inv (hpaths _ (.head _))
    obtain ⟨hr, inv₂, hv₂⟩ := applyKeysLoop_view py rest hops' (fun kv h => hpaths kv (.tail _ h)) inv₁
    rw [applyKeysLoop_cons_of_ok rest h root hw]
    exact ⟨hr, inv₂, by rw [hv₂, hv₁]; rfl⟩

/-! ## Section 5: The law of the loop -/

/-- On a config whose objects on the keys' walks are reached along one path each, and
    keys whose values all convert, the loop raises nothing and leaves a view that meets
    `KeysLaw`; with pairwise prefix-free key paths every iteration order of the same
    keys leaves the same view. -/
theorem applyKeysLoop_law (py : PyParsers) (keys : ProjectKeys) (h : Heap) (root : Nat)
    (hc : h.Closed) (hroot : root < h.next)
    (hwalk : h.WalkUnshared root (keys.items.map fun kv => keyPath kv.1))
    (hconv : ∀ kv ∈ keys.items, ∃ w, convertYamlValue py (.scalar (.str kv.2)) = .ok w) :
    (applyKeysLoop py keys.items h root).raised = none ∧
      KeysLaw py keys (h.view root) ((applyKeysLoop py keys.items h root).heap.view root) ∧
      ((keys.items.Pairwise fun a b => Incomparable (keyPath a.1) (keyPath b.1)) →
        ∀ items', keys.items.Perm items' →
          (applyKeysLoop py items' h root).raised = none ∧
          (applyKeysLoop py items' h root).heap.view root =
            (applyKeysLoop py keys.items h root).heap.view root) := by
  obtain ⟨ops, hops⟩ := keyOps_of_converts py hconv
  have inv : LoopInv h root (keys.items.map fun kv => keyPath kv.1) := ⟨hc, hroot, hwalk⟩
  obtain ⟨hr, -, hv⟩ := applyKeysLoop_view py keys.items hops
    (fun kv hkv => List.mem_map_of_mem (fun kv => keyPath kv.1) hkv) inv
  refine ⟨hr, hv ▸ runView_keysLaw hops _, fun hpf items' hperm => ?_⟩
  obtain ⟨ops', hops', heq⟩ := runView_keyOps_perm hops hpf hperm (h.view root)
  obtain ⟨hr', -, hv'⟩ := applyKeysLoop_view py items' hops'
    (fun kv hkv => List.mem_map_of_mem (fun kv => keyPath kv.1) (hperm.symm.subset hkv)) inv
  exact ⟨hr', by rw [hv', hv, heq]⟩

/-- What `yaml.safe_load` builds for the document

        a: &s
          x: false
        b: *s

    the root object `0`, whose keys `a` and `b` both hold the one object `1`. -/
def anchoredConfig : Heap where
  objs a := if a = 0 then [(.str "a", .obj 1), (.str "b", .obj 1)]
    else if a = 1 then [(.str "x", .val (.scalar (.bool false)) rfl)] else []
  next := 2

/-- Top-level keys for `anchoredConfig`: `b`, which holds the alias itself, and a new key. -/
def anchoredKeys : ProjectKeys := ⟨[("b", "null"), ("c", "on")], by decide⟩

/-- The keys' walks in `anchoredConfig` pass through the root alone, which no slot refers
    to. -/
theorem anchoredConfig_walkUnshared :
    anchoredConfig.WalkUnshared 0 (anchoredKeys.items.map fun kv => keyPath kv.1) := by
  refine Heap.walkUnshared_of_top_level (fun b k hk => ?_) (by decide)
  have hmem := mem_of_lookup_eq_some hk
  simp only [anchoredConfig] at hmem
  split_ifs at hmem <;> simp at hmem

/-- The values of `anchoredKeys` convert, to `None` and `True`. -/
theorem anchoredKeys_convert :
    ∀ kv ∈ anchoredKeys.items, ∃ w, convertYamlValue .rejectAll (.scalar (.str kv.2)) = .ok w := by
  simp only [anchoredKeys, List.forall_mem_cons, List.not_mem_nil, false_implies, implies_true,
    and_true]
  exact ⟨⟨_, rfl⟩, ⟨_, rfl⟩⟩

/-- The law applies to a config with an aliased mapping off the keys' walks. -/
theorem applyKeysLoop_law_anchored :
    anchoredConfig.Closed ∧ 0 < anchoredConfig.next ∧
    anchoredConfig.WalkUnshared 0 (anchoredKeys.items.map fun kv => keyPath kv.1) ∧
    (∀ kv ∈ anchoredKeys.items, ∃ w, convertYamlValue .rejectAll (.scalar (.str kv.2)) = .ok w) ∧
    (applyKeysLoop .rejectAll anchoredKeys.items anchoredConfig 0).raised = none ∧
      KeysLaw .rejectAll anchoredKeys (anchoredConfig.view 0)
        ((applyKeysLoop .rejectAll anchoredKeys.items anchoredConfig 0).heap.view 0) ∧
      ((anchoredKeys.items.Pairwise fun a b => Incomparable (keyPath a.1) (keyPath b.1)) →
        ∀ items', anchoredKeys.items.Perm items' →
          (applyKeysLoop .rejectAll items' anchoredConfig 0).raised = none ∧
          (applyKeysLoop .rejectAll items' anchoredConfig 0).heap.view 0 =
            (applyKeysLoop .rejectAll anchoredKeys.items anchoredConfig 0).heap.view 0) :=
  ⟨by decide, by decide, anchoredConfig_walkUnshared, anchoredKeys_convert,
    applyKeysLoop_law .rejectAll anchoredKeys anchoredConfig 0 (by decide) (by decide)
      anchoredConfig_walkUnshared anchoredKeys_convert⟩

/-- Running the loop again on its own result, as a retried task does, changes the view at
    no path, on a config whose objects on the keys' walks are reached along one path
    each and keys whose values all convert. -/
theorem applyKeysLoop_rerun (py : PyParsers) (items : List (String × String)) (h : Heap)
    (root : Nat) (hc : h.Closed) (hroot : root < h.next)
    (hwalk : h.WalkUnshared root (items.map fun kv => keyPath kv.1))
    (hconv : ∀ kv ∈ items, ∃ w, convertYamlValue py (.scalar (.str kv.2)) = .ok w) :
    (applyKeysLoop py items h root).raised = none ∧
      (applyKeysLoop py items (applyKeysLoop py items h root).heap root).raised = none ∧
      (applyKeysLoop py items (applyKeysLoop py items h root).heap root).heap.view root =
        (applyKeysLoop py items h root).heap.view root := by
  obtain ⟨ops, hops⟩ := keyOps_of_converts py hconv
  have hpaths : ∀ kv ∈ items, keyPath kv.1 ∈ items.map fun kv => keyPath kv.1 :=
    fun kv hkv => List.mem_map_of_mem (fun kv => keyPath kv.1) hkv
  obtain ⟨hr₁, inv₁, hv₁⟩ := applyKeysLoop_view py items hops hpaths ⟨hc, hroot, hwalk⟩
  obtain ⟨hr₂, -, hv₂⟩ := applyKeysLoop_view py items hops hpaths inv₁
  exact ⟨hr₁, hr₂, by rw [hv₂, hv₁, runView_idempotent]⟩

theorem applyKeysLoop_rerun_anchored :
    anchoredConfig.Closed ∧ 0 < anchoredConfig.next ∧
    anchoredConfig.WalkUnshared 0 (anchoredKeys.items.map fun kv => keyPath kv.1) ∧
    (∀ kv ∈ anchoredKeys.items, ∃ w, convertYamlValue .rejectAll (.scalar (.str kv.2)) = .ok w) ∧
    (applyKeysLoop .rejectAll anchoredKeys.items anchoredConfig 0).raised = none ∧
      (applyKeysLoop .rejectAll anchoredKeys.items
        (applyKeysLoop .rejectAll anchoredKeys.items anchoredConfig 0).heap 0).raised = none ∧
      (applyKeysLoop .rejectAll anchoredKeys.items
        (applyKeysLoop .rejectAll anchoredKeys.items anchoredConfig 0).heap 0).heap.view 0 =
        (applyKeysLoop .rejectAll anchoredKeys.items anchoredConfig 0).heap.view 0 :=
  ⟨by decide, by decide, anchoredConfig_walkUnshared, anchoredKeys_convert,
    applyKeysLoop_rerun .rejectAll anchoredKeys.items anchoredConfig 0 (by decide) (by decide)
      anchoredConfig_walkUnshared anchoredKeys_convert⟩

/-! ## Section 6: Aliased mappings on a key's walk

    When an object on a key's walk is reached along a second path, the loop writes
    through one path into the other, and a rerun can drift. -/

/-- Setting `a.x` changes `b.x` as well, though the path `b.x` is neither a prefix nor an
    extension of the key's path. -/
theorem applyKeysLoop_writes_through_alias :
    Incomparable (keyPath "a.x") [.str "b", .str "x"] ∧
    anchoredConfig.lookup (.obj 0) [.str "b", .str "x"] = some (.val (.scalar (.bool false)) rfl) ∧
    (applyKeysLoop .rejectAll [("a.x", "true")] anchoredConfig 0).heap.lookup
      (.obj 0) [.str "b", .str "x"] = some (.val (.scalar (.bool true)) rfl) := by
  exact ⟨by unfold Incomparable; decide, by decide, by decide⟩

/-- A write through `a`, one through its alias `b`, then `b` cut loose. -/
def driftKeys : List (String × String) := [("a.x", "true"), ("b.x", "false"), ("b", "null")]

/-- Rerunning the loop on its own result changes `a.x`: the first run shared the object
    of `a` with `b` for the write of `b.x`, the rerun no longer does. -/
theorem applyKeysLoop_rerun_drifts :
    (applyKeysLoop .rejectAll driftKeys anchoredConfig 0).heap.lookup (.obj 0) [.str "a", .str "x"] =
      some (.val (.scalar (.bool false)) rfl) ∧
    (applyKeysLoop .rejectAll driftKeys (applyKeysLoop .rejectAll driftKeys anchoredConfig 0).heap
      0).heap.lookup (.obj 0) [.str "a", .str "x"] = some (.val (.scalar (.bool true)) rfl) := by
  decide

end Cosmos
