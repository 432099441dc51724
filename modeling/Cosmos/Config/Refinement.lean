import Cosmos.Config.Heap
import Mathlib

/-! # The heap model refines the tree view on documents without aliases

    `Holds h r v fp` says that the reference `r` holds the tree `v` in the heap `h`,
    through the dict objects `fp`, each reached once: the footprints of a dict's
    entries are disjoint and do not contain the dict itself. This is what
    `yaml.safe_load` builds for a document without anchors and aliases of mappings,
    and it is the hypothesis under which `_set_nested_key` is a function of the tree.

    * `Holds.frame`: a heap that agrees on the footprint holds the same tree;
    * `HoldsEntries.focus`: the entry of one key, with its footprint, can be replaced
      (the separating step every write needs);
    * `allocValue_holds`: a converted value is built in fresh objects;
    * `setNested_holds`: `_set_nested_key` on the heap is `setAtPath` on the tree, and
      leaves every object outside the footprint alone;
    * `applyKeysLoop_holds`: when every value converts, the whole loop raises nothing
      and is `applyPaths` of `keyOps`.

    `Cosmos.Config.Graph` drops the tree hypothesis for the objects off the key walks.
-/

namespace Cosmos

/-! ## Section 1: Holding a tree -/

mutual
/-- The reference holds the value, through the dict objects of the footprint. -/
inductive Holds (h : Heap) : Ref → Value → Set Nat → Prop
  | val {v : Value} (hv : v.isDict = false) : Holds h (.val v hv) v ∅
  | obj {a : Nat} {e : Entries} {fp : Set Nat} :
      HoldsEntries h (h.objs a) e fp → a ∉ fp → a < h.next →
      Holds h (.obj a) (.dict e) (insert a fp)

/-- The slots hold the entries, key by key, through disjoint footprints. -/
inductive HoldsEntries (h : Heap) : List (Scalar × Ref) → Entries → Set Nat → Prop
  | nil : HoldsEntries h [] [] ∅
  | cons {k : Scalar} {r : Ref} {v : Value} {fp : Set Nat} {rs : List (Scalar × Ref)}
      {e : Entries} {fps : Set Nat} :
      Holds h r v fp → HoldsEntries h rs e fps → Disjoint fp fps →
      HoldsEntries h ((k, r) :: rs) ((k, v) :: e) (fp ∪ fps)
end

/-- The heap `h'` agrees with `h` on the objects of `fp`, which it has allocated. -/
def Heap.AgreeOn (h h' : Heap) (fp : Set Nat) : Prop := ∀ a ∈ fp, h'.objs a = h.objs a ∧ a < h'.next

theorem Heap.AgreeOn.mono {h h' : Heap} {fp fp' : Set Nat} (hag : h.AgreeOn h' fp)
    (hsub : fp' ⊆ fp) : h.AgreeOn h' fp' := fun a ha => hag a (hsub ha)

mutual
/-- A heap that agrees on the footprint holds the same tree. -/
theorem Holds.frame {h h' : Heap} : ∀ {r v fp}, Holds h r v fp → h.AgreeOn h' fp →
    Holds h' r v fp
  | _, _, _, .val hv, _ => .val hv
  | _, _, _, .obj (a := a) he ha _, hag => by
    have hea := HoldsEntries.frame he (hag.mono (Set.subset_insert a _))
    rw [← (hag a (Set.mem_insert _ _)).1] at hea
    exact .obj hea ha (hag a (Set.mem_insert _ _)).2

theorem HoldsEntries.frame {h h' : Heap} : ∀ {rs e fp}, HoldsEntries h rs e fp →
    h.AgreeOn h' fp → HoldsEntries h' rs e fp
  | _, _, _, .nil, _ => .nil
  | _, _, _, .cons hr hrs hd, hag =>
    .cons (Holds.frame hr (hag.mono Set.subset_union_left))
      (HoldsEntries.frame hrs (hag.mono Set.subset_union_right)) hd
end

mutual
/-- Every object of a footprint is allocated. -/
theorem Holds.lt_next {h : Heap} : ∀ {r v fp}, Holds h r v fp → ∀ a ∈ fp, a < h.next
  | _, _, _, .val _, _, ha => absurd ha (Set.not_mem_empty _)
  | _, _, _, .obj he _ hlt, b, hb => by
    rcases Set.mem_insert_iff.mp hb with rfl | hb
    · exact hlt
    · exact HoldsEntries.lt_next he b hb

theorem HoldsEntries.lt_next {h : Heap} : ∀ {rs e fp}, HoldsEntries h rs e fp →
    ∀ a ∈ fp, a < h.next
  | _, _, _, .nil, _, ha => absurd ha (Set.not_mem_empty _)
  | _, _, _, .cons hr hrs _, a, ha => ha.elim (Holds.lt_next hr a) (HoldsEntries.lt_next hrs a)
end

/-! ## Section 2: Focusing on one entry -/

/-- Focus on the entry of key `k`: the footprint splits into that entry's part and the
    rest, and the entry can be replaced by any reference holding a value through a
    footprint apart from the rest, in any heap that agrees on the rest. -/
theorem HoldsEntries.focus {h : Heap} : ∀ {rs : List (Scalar × Ref)} {e : Entries}
    {fp : Set Nat}, HoldsEntries h rs e fp → ∀ k : Scalar,
    ∃ fpk rest, fp = fpk ∪ rest ∧ Disjoint fpk rest ∧
      Option.Rel (fun r v => Holds h r v fpk) (rs.lookup k) (e.lookup k) ∧
      ∀ {h' : Heap} {r : Ref} {v : Value} {fpr : Set Nat}, h.AgreeOn h' rest →
        Holds h' r v fpr → Disjoint fpr rest →
        HoldsEntries h' (assign rs k r) (assign e k v) (fpr ∪ rest)
  | _, _, _, .nil, k => ⟨∅, ∅, (Set.union_empty _).symm, disjoint_bot_left, .none,
      fun _ hr hd => .cons hr .nil hd⟩
  | _, _, _, @HoldsEntries.cons _ k' r' v' fp₁ _ _ fp₂ hr hrs hd, k => by
    by_cases hk : k' = k
    · subst hk
      refine ⟨fp₁, fp₂, rfl, hd, ?_, fun hag hr' hd' => ?_⟩
      · have hsome : Option.Rel (fun r v => Holds h r v fp₁) (some r') (some v') := .some hr
        simpa [lookup_cons_ite] using hsome
      · simpa [assign] using HoldsEntries.cons hr' (hrs.frame hag) hd'
    · obtain ⟨fpk, rest, hsplit, hdis, hrel, hrep⟩ := hrs.focus k
      have hfp₁ : Disjoint fpk fp₁ := (hd.mono_right (hsplit ▸ Set.subset_union_left)).symm
      refine ⟨fpk, fp₁ ∪ rest, by rw [hsplit, Set.union_left_comm],
        Set.disjoint_union_right.mpr ⟨hfp₁, hdis⟩, ?_, fun hag hr' hd' => ?_⟩
      · simpa [lookup_cons_ite, Ne.symm hk] using hrel
      · have hrest : Disjoint fp₁ rest := hd.mono_right (hsplit ▸ Set.subset_union_right)
        have hcons := HoldsEntries.cons (k := k') (hr.frame (hag.mono Set.subset_union_left))
          (hrep (hag.mono Set.subset_union_right) hr'
            (hd'.mono_right Set.subset_union_right))
          (Set.disjoint_union_right.mpr
            ⟨(hd'.mono_right Set.subset_union_left).symm, hrest⟩)
        rw [Set.union_left_comm] at hcons
        simpa [assign, hk] using hcons

/-! ## Section 3: Fresh objects -/

/-- `h'` only allocates past `h`: every object of `h` is kept. -/
def Heap.Extends (h h' : Heap) : Prop := h.next ≤ h'.next ∧ ∀ a < h.next, h'.objs a = h.objs a

theorem Heap.Extends.refl (h : Heap) : h.Extends h := ⟨le_rfl, fun _ _ => rfl⟩

theorem Heap.Extends.trans {h₁ h₂ h₃ : Heap} (h₁₂ : h₁.Extends h₂) (h₂₃ : h₂.Extends h₃) :
    h₁.Extends h₃ :=
  ⟨h₁₂.1.trans h₂₃.1, fun a ha => (h₂₃.2 a (lt_of_lt_of_le ha h₁₂.1)).trans (h₁₂.2 a ha)⟩

theorem Heap.Extends.agreeOn {h h' : Heap} (hext : h.Extends h') {fp : Set Nat}
    (hlt : ∀ a ∈ fp, a < h.next) : h.AgreeOn h' fp :=
  fun a ha => ⟨hext.2 a (hlt a ha), lt_of_lt_of_le (hlt a ha) hext.1⟩

theorem Heap.extends_alloc (h : Heap) (es : List (Scalar × Ref)) : h.Extends (h.alloc es) :=
  ⟨Nat.le_succ _, fun a ha => by simp [Heap.alloc_objs, Nat.ne_of_lt ha]⟩

mutual
/-- A converted value is built in fresh objects, and nothing else changes. -/
theorem allocValue_holds : ∀ (v : Value) (h : Heap), h.Extends (allocValue v h).2 ∧
    ∃ fp, Holds (allocValue v h).2 (allocValue v h).1 v fp ∧ ∀ a ∈ fp, h.next ≤ a
  | .scalar s, h =>
    ⟨.refl h, ∅, .val (v := .scalar s) rfl, fun _ ha => absurd ha (Set.not_mem_empty _)⟩
  | .list vs, h =>
    ⟨.refl h, ∅, .val (v := .list vs) rfl, fun _ ha => absurd ha (Set.not_mem_empty _)⟩
  | .dict e, h => by
    obtain ⟨hext, fp, hfp, hge⟩ := allocEntries_holds e h
    simp only [allocValue]
    generalize allocEntries e h = p at hext hfp ⊢
    obtain ⟨es, h₁⟩ := p
    have hlt := hfp.lt_next
    have hext₁ := h₁.extends_alloc es
    refine ⟨hext.trans hext₁, insert h₁.next fp, ?_, ?_⟩
    · refine .obj ?_ (fun h => Nat.lt_irrefl _ (hlt _ h)) (Nat.lt_succ_self _)
      simpa [Heap.alloc_objs] using hfp.frame (hext₁.agreeOn hlt)
    · rintro a (rfl | ha)
      exacts [hext.1, hge a ha]

/-- The values of a dict's entries are built in fresh objects, apart from each other. -/
theorem allocEntries_holds : ∀ (e : Entries) (h : Heap), h.Extends (allocEntries e h).2 ∧
    ∃ fp, HoldsEntries (allocEntries e h).2 (allocEntries e h).1 e fp ∧ ∀ a ∈ fp, h.next ≤ a
  | [], h => ⟨.refl h, ∅, .nil, fun _ ha => absurd ha (Set.not_mem_empty _)⟩
  | (k, v) :: e, h => by
    obtain ⟨hext₁, fpv, hv, hgev⟩ := allocValue_holds v h
    simp only [allocEntries]
    generalize allocValue v h = p at hext₁ hv ⊢
    obtain ⟨r, h₁⟩ := p
    obtain ⟨hext₂, fpe, he, hgee⟩ := allocEntries_holds e h₁
    generalize allocEntries e h₁ = p at hext₂ he ⊢
    obtain ⟨rs, h₂⟩ := p
    refine ⟨hext₁.trans hext₂, fpv ∪ fpe, .cons (hv.frame (hext₂.agreeOn hv.lt_next)) he ?_, ?_⟩
    · exact Set.disjoint_left.mpr fun a ha hb => Nat.lt_irrefl _
        (lt_of_lt_of_le (hv.lt_next a ha) (hgee a hb))
    · rintro a (ha | ha)
      exacts [hgev a ha, hext₁.1.trans (hgee a ha)]
end

/-! ## Section 4: `_set_nested_key` on a tree-shaped config -/

/-- A dict object is in its own footprint, and allocated. -/
theorem Holds.obj_mem {h : Heap} {a : Nat} {v : Value} {fp : Set Nat}
    (H : Holds h (.obj a) v fp) : a ∈ fp ∧ a < h.next := by
  cases H with
  | obj _ _ hlt => exact ⟨Set.mem_insert _ _, hlt⟩

/-- A slot holding a dict object: the tree's slot holds a dict, through that object. -/
theorem slot_obj {h : Heap} {a : Nat} {fpk : Set Nat} {o : Option Value}
    (hrel : Option.Rel (fun r v => Holds h r v fpk) (some (.obj a)) o) :
    ∃ c, o = some (.dict c) ∧ Holds h (.obj a) (.dict c) fpk := by
  cases hrel with
  | some hr => cases hr with
    | obj he hn hl => exact ⟨_, rfl, .obj he hn hl⟩

/-- A slot holding no dict object: the tree's slot holds no dict either, so the loop
    descends into a fresh `{}` on both sides. -/
theorem slot_not_obj {h : Heap} {fpk : Set Nat} {ro : Option Ref} {o : Option Value}
    (hrel : Option.Rel (fun r v => Holds h r v fpk) ro o) (hno : ∀ a, ro ≠ some (.obj a)) :
    asDict o = [] := by
  cases hrel with
  | none => rfl
  | some hr => cases hr with
    | val hv => rename_i v; cases v with
      | dict => cases hv
      | _ => rfl
    | obj => exact absurd rfl (hno _)

/-- Writing slot `k` of a dict object that holds `e`: the slot's old footprint `fpk` is
    set apart; any heap that keeps the other objects, assigns the slot and holds the
    new value there through `fpk` and fresh objects holds `e` with `k` assigned. -/
theorem Holds.write_slot {h : Heap} {cur : Nat} {e : Entries} {fp : Set Nat}
    (H : Holds h (.obj cur) (.dict e) fp) (k : Scalar) :
    ∃ fpk, fpk ⊆ fp ∧ cur ∉ fpk ∧
      Option.Rel (fun r v => Holds h r v fpk) ((h.objs cur).lookup k) (e.lookup k) ∧
      ∀ {h' : Heap} {r : Ref} {v : Value} {fpr : Set Nat},
        (∀ a ∈ fp, a ∉ fpk → a ≠ cur → h'.objs a = h.objs a) → h.next ≤ h'.next →
        h'.objs cur = assign (h.objs cur) k r → Holds h' r v fpr →
        (∀ a ∈ fpr, a ∈ fpk ∨ h.next ≤ a) →
        ∃ fp', Holds h' (.obj cur) (.dict (assign e k v)) fp' ∧ ∀ a ∈ fp', a ∈ fp ∨ h.next ≤ a := by
  cases H with
  | obj he hcur hlt =>
    obtain ⟨fpk, rest, rfl, hdis, hrel, hrep⟩ := he.focus k
    have hlt' := he.lt_next
    refine ⟨fpk, fun a ha => Or.inr (Or.inl ha), fun h => hcur (Or.inl h), hrel,
      @fun h' r v fpr hkeep hnext hcur' hr hfresh => ?_⟩
    have hag : h.AgreeOn _ rest := fun a ha =>
      ⟨hkeep a (Or.inr (Or.inr ha)) (Set.disjoint_right.mp hdis ha)
        (fun h => hcur (h ▸ Or.inr ha)), lt_of_lt_of_le (hlt' a (Or.inr ha)) hnext⟩
    have hdis' : Disjoint fpr rest := Set.disjoint_left.mpr fun a ha hb =>
      (hfresh a ha).elim (Set.disjoint_left.mp hdis · hb)
        (fun hge => Nat.lt_irrefl _ (lt_of_lt_of_le (hlt' a (Or.inr hb)) hge))
    have hentries := hrep hag hr hdis'
    rw [← hcur'] at hentries
    refine ⟨_, .obj hentries ?_ (lt_of_lt_of_le hlt hnext), ?_⟩
    · rintro (ha | ha)
      · exact (hfresh cur ha).elim (fun h => hcur (Or.inl h)) (fun h => Nat.lt_irrefl _ (lt_of_lt_of_le hlt h))
      · exact hcur (Or.inr ha)
    · rintro a (rfl | ha | ha)
      · exact Or.inl (Set.mem_insert _ _)
      · exact (hfresh a ha).imp_left fun h => Or.inr (Or.inl h)
      · exact Or.inl (Or.inr (Or.inr ha))

/-- On a tree-shaped config, `_set_nested_key`'s loop from `cur` is `setAtPath` on the
    tree: `cur` then holds the written tree, through its old objects and fresh ones,
    and every object outside its footprint is left alone. -/
theorem setNested_holds (key : String) (w : Value) : ∀ (p : List String) (h : Heap)
    (cur : Nat) {e : Entries} {fp : Set Nat}, p ≠ [] → Holds h (.obj cur) (.dict e) fp →
    (∀ a < h.next, a ∉ fp → (setNested key (some w) p h cur).1.objs a = h.objs a) ∧
    h.next ≤ (setNested key (some w) p h cur).1.next ∧
    ∃ fp', Holds (setNested key (some w) p h cur).1 (.obj cur)
      (.dict (setAtPath (p.map .str) w e)) fp' ∧ ∀ a ∈ fp', a ∈ fp ∨ h.next ≤ a
  | [], _, _, _, _, hp, _ => absurd rfl hp
  | [final], h, cur, e, fp, _, H => by
    obtain ⟨hcurfp, hcur⟩ := H.obj_mem
    obtain ⟨fpk, -, -, -, hwrite⟩ := H.write_slot (.str final)
    obtain ⟨hext, fpw, hw, hfresh⟩ := allocValue_holds w h
    simp only [setNested]
    generalize allocValue w h = p at hext hw ⊢
    obtain ⟨r, h₁⟩ := p
    have hkeep : ∀ a < h.next, a ≠ cur → (h₁.store cur (.str final) r).objs a = h.objs a :=
      fun a ha hne => by rw [Heap.store_objs, if_neg hne, hext.2 a ha]
    refine ⟨fun a ha hnot => hkeep a ha fun h => hnot (h ▸ hcurfp), hext.1, ?_⟩
    refine hwrite (fun a ha _ hne => hkeep a (H.lt_next a ha) hne) hext.1
      (by rw [Heap.store_objs, if_pos rfl, hext.2 cur hcur])
      (hw.frame fun a ha => ⟨?_, hw.lt_next a ha⟩) fun a ha => Or.inr (hfresh a ha)
    have hge := hfresh a ha
    rw [Heap.store_objs, if_neg (by omega)]
  | k :: k' :: ks, h, cur, e, fp, _, H => by
    obtain ⟨hcurfp, hcur⟩ := H.obj_mem
    obtain ⟨fpk, hsub, hcurk, hrel, hwrite⟩ := H.write_slot (.str k)
    by_cases hobj : ∃ a, (h.objs cur).lookup (.str k) = some (.obj a)
    · -- a dict under `k`: walk into it, `cur` itself is untouched
      obtain ⟨a, hl⟩ := hobj
      obtain ⟨c, hc, Ha⟩ := slot_obj (hl ▸ hrel)
      obtain ⟨hframe, hnext, fpa, Ha', hfresh⟩ :=
        setNested_holds key w (k' :: ks) h a (List.cons_ne_nil _ _) Ha
      rw [setNested_of_obj hl]
      refine ⟨fun b hb hnot => hframe b hb (hnot <| hsub ·), hnext, ?_⟩
      have hwr := hwrite (fun b hb hnotk _ => hframe b (H.lt_next b hb) hnotk) hnext
        (by rw [assign_of_lookup_eq hl]; exact hframe cur hcur hcurk) Ha' hfresh
      simpa [setAtPath, child, hc] using hwr
    · -- anything else under `k`: a fresh `{}` is stored there and walked into
      push_neg at hobj
      have hchild := slot_not_obj hrel hobj
      set h₀ := (h.alloc []).store cur (.str k) (.obj h.next) with hh₀
      have hne : cur ≠ h.next := Nat.ne_of_lt hcur
      have hkeep₀ : ∀ b < h.next, b ≠ cur → h₀.objs b = h.objs b := fun b hb hbc => by
        rw [hh₀, Heap.store_objs, if_neg hbc, Heap.alloc_objs, if_neg (Nat.ne_of_lt hb)]
      have H₀ : Holds h₀ (.obj h.next) (.dict []) (insert h.next ∅) := by
        refine .obj ?_ (Set.not_mem_empty _) (Nat.lt_succ_self _)
        rw [hh₀, Heap.store_objs, if_neg hne.symm, Heap.alloc_objs, if_pos rfl]
        exact .nil
      obtain ⟨hframe, hnext, fpf, Hf, hfresh⟩ :=
        setNested_holds key w (k' :: ks) h₀ h.next (List.cons_ne_nil _ _) H₀
      have hkeep : ∀ b < h.next, b ≠ cur → (setNested key (some w) (k' :: ks) h₀ h.next).1.objs b =
          h.objs b := fun b hb hbc => by
        rw [hframe b (Nat.lt_succ_of_lt hb) (by simpa using Nat.ne_of_lt hb), hkeep₀ b hb hbc]
      rw [setNested_fst_of_not_obj hobj]
      refine ⟨fun b hb hnot => hkeep b hb fun h => hnot (h ▸ hcurfp),
        (Nat.le_succ _).trans hnext, ?_⟩
      have hwr := hwrite (fun b hb _ hbc => hkeep b (H.lt_next b hb) hbc)
        ((Nat.le_succ _).trans hnext)
        (by rw [hframe cur (Nat.lt_succ_of_lt hcur) (by simpa using hne), hh₀, Heap.store_objs,
          if_pos rfl, Heap.alloc_objs, if_neg hne])
        Hf fun b hb => Or.inr <| (hfresh b hb).elim (fun h => by obtain rfl | h := h; exacts [le_rfl, h.elim])
          Nat.le_of_succ_le
      simpa [setAtPath, child, hchild] using hwr

/-! ## Section 5: The loop on a document without aliases -/

/-- The simulation: on a config object holding the tree `c`, the loop over keys whose
    values all convert leaves it holding `applyPaths ops c`, the keys' writes applied to
    the tree. -/
theorem applyKeysLoop_holds (py : PyParsers) : ∀ (items : List (String × String)) {ops : List Op}
    (h : Heap) (root : Nat) {c : Entries} {fp : Set Nat}, keyOps py items = .ok ops →
    Holds h (.obj root) (.dict c) fp →
    (applyKeysLoop py items h root).raised = none ∧
      ∃ fp', Holds (applyKeysLoop py items h root).heap (.obj root) (.dict (applyPaths ops c)) fp'
  | [], _, _, _, _, fp, hops, H => by cases hops; exact ⟨rfl, fp, H⟩
  | (k, v) :: rest, _, h, root, _, _, hops, H => by
    obtain ⟨w, ops', hw, hops', rfl⟩ := keyOps_cons_eq_ok.mp hops
    obtain ⟨-, -, _, H₁, -⟩ := setNested_holds k w (splitKey k) h root (splitKey_ne_nil k) H
    have hrest := applyKeysLoop_holds py rest _ root hops' H₁
    rw [applyKeysLoop_cons_of_ok rest h root hw]
    exact hrest

/-- Reading a dotted path through the objects finds what the tree holds there. -/
theorem Holds.lookup {h : Heap} : ∀ (q : List Scalar) {r : Ref} {v : Value} {fp : Set Nat},
    Holds h r v fp → Option.Rel (fun r v => ∃ fp, Holds h r v fp) (h.lookup r q) (v.lookup q)
  | [], _, _, _, H => by rw [Heap.lookup_nil, Value.lookup_nil]; exact .some ⟨_, H⟩
  | _ :: _, _, _, _, .val hv => by
    rw [Value.lookup_cons_of_isDict_false hv]; exact .none
  | k :: ks, _, _, _, .obj (a := a) (e := e) he _ _ => by
    obtain ⟨fpk, -, -, -, hrel, -⟩ := he.focus k
    simp only [Heap.lookup, Value.lookup_dict_cons]
    generalize (h.objs a).lookup k = ro at hrel ⊢
    generalize e.lookup k = o at hrel ⊢
    cases hrel with
    | none => exact .none
    | some hr => exact Holds.lookup ks hr

/-- The config of the tests' deep nested key creation,
    `{"name": "test_project", "version": "1.0.0"}`, as a tree. -/
def testTree : Entries :=
  [(.str "name", .scalar (.str "test_project")), (.str "version", .scalar (.str "1.0.0"))]

/-- `testTree` as `safe_load` builds it: one dict object at address `0`. -/
def testConfig : Heap where
  objs a := if a = 0 then [(.str "name", .val (.scalar (.str "test_project")) rfl),
    (.str "version", .val (.scalar (.str "1.0.0")) rfl)] else []
  next := 1

theorem testConfig_holds : Holds testConfig (.obj 0) (.dict testTree) (insert 0 (∅ ∪ (∅ ∪ ∅))) :=
  .obj (.cons (.val (v := .scalar (.str "test_project")) rfl)
    (.cons (.val (v := .scalar (.str "1.0.0")) rfl) .nil (Set.empty_disjoint _))
    (Set.empty_disjoint _)) (by simp) Nat.zero_lt_one

/-- The keys of the tests' deep nested key creation. -/
def testKeys : ProjectKeys :=
  ⟨[("models.my_project.staging.customers.materialized", "table"),
    ("models.my_project.staging.customers.meta.owner", "analytics_team")], by decide⟩

/-- The writes of `testKeys`: neither value is a boolean, null, JSON or a number, so both
    stay strings. -/
def testOps : List Op :=
  [(keyPath "models.my_project.staging.customers.materialized", .scalar (.str "table")),
    (keyPath "models.my_project.staging.customers.meta.owner", .scalar (.str "analytics_team"))]

/-- On a config loaded from a document without aliased mappings, the loop over keys whose
    values all convert raises nothing, and reading any dotted path of the config object
    afterwards finds what the tree view gives there. -/
theorem applyKeysLoop_lookup (py : PyParsers) (items : List (String × String)) {ops : List Op}
    (h : Heap) (root : Nat) {c : Entries} {fp : Set Nat} (hops : keyOps py items = .ok ops)
    (H : Holds h (.obj root) (.dict c) fp) (q : List Scalar) :
    (applyKeysLoop py items h root).raised = none ∧
      Option.Rel (fun r v => ∃ fp, Holds (applyKeysLoop py items h root).heap r v fp)
        ((applyKeysLoop py items h root).heap.lookup (.obj root) q)
        ((Value.dict (applyPaths ops c)).lookup q) := by
  obtain ⟨hraised, _, H'⟩ := applyKeysLoop_holds py items h root hops H
  exact ⟨hraised, H'.lookup q⟩

theorem applyKeysLoop_lookup_deep_nested :
    keyOps .rejectAll testKeys.items = .ok testOps ∧
    Holds testConfig (.obj 0) (.dict testTree) (insert 0 (∅ ∪ (∅ ∪ ∅))) ∧
    (applyKeysLoop .rejectAll testKeys.items testConfig 0).raised = none ∧
      Option.Rel (fun r v => ∃ fp, Holds (applyKeysLoop .rejectAll testKeys.items testConfig 0).heap r v fp)
        ((applyKeysLoop .rejectAll testKeys.items testConfig 0).heap.lookup (.obj 0)
          [.str "models", .str "my_project"])
        ((Value.dict (applyPaths testOps testTree)).lookup [.str "models", .str "my_project"]) :=
  ⟨rfl, testConfig_holds,
    applyKeysLoop_lookup .rejectAll testKeys.items testConfig 0 rfl testConfig_holds _⟩

end Cosmos
