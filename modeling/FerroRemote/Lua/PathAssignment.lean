/-
# Assigning along a path

`set` comes to its path's last entry, the one of the last component or of the first that
does not denote a table, builds new tables for what is left of the path, and writes that
entry only. Tables may be shared, so other paths may come to the same entry, and the path
itself may come to it twice; what does not come to it does not change.
-/

import FerroRemote.Lua.PathReading

namespace FerroRemote.Lua

/-- New tables for the names, the innermost of which holds the value. -/
def build : List Text → Value → Heap → Value × Heap
  | [], v, h => (v, h)
  | name :: names, v, h =>
    (.table h.length,
      (build names v h.alloc).2.set h.length (.string name) (build names v h.alloc).1)

/-- The entry where a path ends or leaves the tables gets the value, under new tables for
what is left of the path. -/
def assignAt (h : Heap) (t : Value) (names : List Text) (v : Value) : Heap :=
  match valueShape.place (fields h) t names with
  | some (id, name, left) => (build left v h).2.set id (.string name) (build left v h).1
  | none => h

section Descent

variable {h : Heap} {id id' : Nat} {name : Text} {names : List Text} (v : Value)

theorem assignAt_further (hnames : names ≠ [])
    (hfield : h.get id (.string name) = .table id') :
    assignAt h (.table id) (name :: names) v = assignAt h (.table id') names v := by
  have hnode : valueShape.node (.table id) = some id := rfl
  have hnext : valueShape.node (fields h id name) = some id' := node_eq_some_iff.mpr hfield
  have hfield : fields h id name = .table id' := hfield
  cases hplace : valueShape.place (fields h) (fields h id name) names with
  | none =>
      cases Shape.place_eq_none_iff.mp hplace with
      | inl hempty => exact absurd hempty hnames
      | inr hnone =>
          rw [hnext] at hnone
          cases hnone
  | some further =>
      rw [assignAt, Shape.place_cons_further hnode hplace, assignAt, ← hfield, hplace]

theorem assignAt_here (hstop : names = [] ∨ (h.get id (.string name)).type ≠ .table) :
    assignAt h (.table id) (name :: names) v =
      (build names v h).2.set id (.string name) (build names v h).1 := by
  have hnode : valueShape.node (.table id) = some id := rfl
  have hplace : valueShape.place (fields h) (fields h id name) names = none :=
    Shape.place_eq_none_iff.mpr (hstop.imp_right node_eq_none_iff.mpr)
  rw [assignAt, Shape.place_cons_here hnode hplace]

end Descent

section Programs

variable {globals : Nat} {call : Heap → Value → List Value → Called × Heap}

theorem assign_table (h : Heap) (id : Nat) (name : Text) (v : Value) :
    (tableLibrary globals call).assign h (.table id) (.string name) v =
      some (h.set id (.string name) v) := rfl

theorem wellNamed_rest {path : Text} (hpath : WellNamed path) (htail : tail path ≠ []) :
    WellNamed ((tail path).drop 1) := by
  intro name hname
  apply hpath name
  rw [components_of_tail htail]
  exact List.mem_cons_of_mem _ hname

theorem createOrPush_run {path : Text} (hpath : WellNamed path) (v : Value) (h : Heap)
    (stack : List Value) :
    createOrPush (tableLibrary globals call) path v ⟨h, stack⟩ =
      .done () ⟨(build (components path) v h).2, (build (components path) v h).1 :: stack⟩ := by
  induction path using createOrPush.induct generalizing h stack with
  | case1 =>
      have hmem : [] ∈ components [] := by
        rw [components_of_not_mem List.not_mem_nil]
        exact List.mem_cons_self
      exact absurd rfl (hpath [] hmem)
  | case2 path hne ih =>
      have hnew : newTable (tableLibrary globals call) ⟨h, stack⟩ =
          .done () ⟨h.alloc, .table h.length :: stack⟩ := rfl
      rw [createOrPush, if_neg hne, Action.bind_done hnew, Action.bind_done (push_apply _)]
      by_cases htail : tail path = []
      · have hvalue : createOrPush (tableLibrary globals call) ((tail path).drop 1) v =
            push v := by
          rw [htail, createOrPush, if_pos List.drop_nil]
        rw [hvalue, Action.bind_done (push_apply _), setTable_some (assign_table _ _ _ _),
          components_of_tail_nil htail]
        rfl
      · rw [Action.bind_done (ih (wellNamed_rest hpath htail) _ _),
          setTable_some (assign_table _ _ _ _), components_of_tail htail]
        rfl

theorem setToStack_run {path : Text} (hpath : WellNamed path) (v : Value) (id : Nat) (h : Heap)
    (rest : List Value) :
    setToStack (tableLibrary globals call) path v ⟨h, .table id :: rest⟩ =
      .done () ⟨assignAt h (.table id) (components path) v, .table id :: rest⟩ := by
  induction path using setToStack.induct generalizing id rest with
  | case1 path htail =>
      rw [setToStack, if_pos htail, Action.bind_done (push_apply _),
        Action.bind_done (push_apply _), setTable_some (assign_table _ _ _ _),
        components_of_tail_nil htail, assignAt_here v (.inl rfl)]
      rfl
  | case2 path htail ih =>
      have hrest := wellNamed_rest hpath htail
      have hfield : getfield (tableLibrary globals call) (-1) (root path) ⟨h, .table id :: rest⟩ =
          .done () ⟨h, h.get id (.string (root path)) :: .table id :: rest⟩ :=
        getfield_some (index_table id _)
      rw [setToStack, if_neg htail, Action.bind_done hfield, components_of_tail htail]
      by_cases htype : (h.get id (.string (root path))).type = .table
      · obtain ⟨id', hid⟩ := type_eq_table_iff.mp htype
        rw [whenTable_table _ _ htype, hid, Action.bind_done (ih hrest id' _),
          assignAt_further v (components_ne_nil _) hid]
        rfl
      · rw [whenTable_other _ _ htype, Action.bind_done (pop_apply _ _),
          Action.bind_done (push_apply _), Action.bind_done (createOrPush_run hrest _ _ _),
          assignAt_here v (.inr htype)]
        exact setTable_some (assign_table _ _ _ _)

/-- What `set` leaves: after a descent, the first component is assigned again. -/
def assigned (globals : Nat) (h : Heap) (path : Text) (v : Value) : Heap :=
  if tail path ≠ [] ∧ (fields h globals (root path)).type = .table then
    (assignAt h (.table globals) (components path) v).set globals (.string (root path))
      (fields h globals (root path))
  else assignAt h (.table globals) (components path) v

theorem replaceTop_run {path : Text} (hpath : WellNamed path) (v : Value) (h : Heap)
    (stack : List Value) :
    ∃ h' pushed, replaceTop (tableLibrary globals call) path v
        ⟨h, h.get globals (.string (root path)) :: stack⟩ = .done () ⟨h', pushed :: stack⟩ ∧
      h'.set globals (.string (root path)) pushed = assigned globals h path v := by
  rw [replaceTop, assigned]
  by_cases htail : tail path = []
  · rw [if_pos htail, if_pos htail, if_neg (fun hboth => hboth.1 htail),
      components_of_tail_nil htail, assignAt_here v (.inl rfl)]
    apply Exists.intro h
    apply Exists.intro v
    apply And.intro _ rfl
    by_cases htype : (h.get globals (.string (root path))).type = .table
    · rw [whenTable_table _ _ htype]
      rfl
    · rw [whenTable_other _ _ htype]
      rfl
  · have hrest := wellNamed_rest hpath htail
    rw [if_neg htail, if_neg htail, components_of_tail htail]
    by_cases htype : (h.get globals (.string (root path))).type = .table
    · obtain ⟨id, hid⟩ := type_eq_table_iff.mp htype
      rw [if_pos ⟨htail, htype⟩, whenTable_table _ _ htype,
        assignAt_further v (components_ne_nil _) hid, hid, setToStack_run hrest]
      exact ⟨_, _, rfl, by rw [← hid]; rfl⟩
    · rw [if_neg (fun hboth => htype hboth.2), whenTable_other _ _ htype,
        Action.bind_done (pop_apply _ _), assignAt_here v (.inr htype)]
      exact ⟨_, _, createOrPush_run hrest v h stack, rfl⟩

theorem set_run {path : Text} (hpath : WellNamed path) (v : Value) (s : State Heap) :
    set (tableLibrary globals call) path v s =
      .done () ⟨assigned globals s.heap path v, s.stack⟩ := by
  have hglobal : getGlobal (tableLibrary globals call) (root path) s =
      .done () ⟨s.heap, s.heap.get globals (.string (root path)) :: s.stack⟩ :=
    getGlobal_some rfl
  obtain ⟨h', pushed, hreplaced, hassigned⟩ :=
    @replaceTop_run globals call path hpath v s.heap s.stack
  rw [set, Action.bind_done hglobal, Action.bind_done hreplaced, ← hassigned]
  exact setGlobal_some rfl

end Programs

/-- Two paths that go different ways. -/
def Apart (names names' : List Text) : Prop := ¬ names <+: names' ∧ ¬ names' <+: names

theorem Apart.tail {name : Text} {names names' : List Text}
    (hapart : Apart (name :: names) (name :: names')) : Apart names names' :=
  ⟨fun hprefix => hapart.1 (List.cons_prefix_cons.mpr ⟨rfl, hprefix⟩),
    fun hprefix => hapart.2 (List.cons_prefix_cons.mpr ⟨rfl, hprefix⟩)⟩

theorem fields_set {h : Heap} {id : Nat} (hid : id < h.length) (name : Text) (v : Value)
    (id' : Nat) (name' : Text) :
    fields (h.set id (.string name) v) id' name' =
      if id' = id ∧ name' = name then v else fields h id' name' := by
  rw [fields, Heap.get_set hid (by exact fun hnil => by cases hnil), fields]
  simp only [Value.string.injEq]

/-- What hangs below a value once it has been built, or assigned. -/
structure Leads (h : Heap) (first : Nat) (x : Value) (names : List Text) (v : Value) : Prop where
  reads : valueShape.reads (fields h) x names = v
  fresh : (valueShape.visits (fields h) x names).map Prod.fst = List.range' first names.length
  elsewhere : ∀ names', Apart names' names → valueShape.reads (fields h) x names' = .nil ∧
    ∀ e ∈ valueShape.visits (fields h) x names', first ≤ e.1

theorem Leads.full {h : Heap} {first : Nat} {x v : Value} {names : List Text}
    (hleads : Leads h first x names v) :
    (valueShape.visits (fields h) x names).length = names.length := by
  have hcount := congrArg List.length hleads.fresh
  rwa [List.length_map, List.length_range'] at hcount

/-- The tables that lead to the value are not changed when another one is. -/
theorem Leads.congr {h h' : Heap} {first : Nat} {x v : Value} {names : List Text}
    (hleads : Leads h first x names v)
    (hsame : ∀ id name, first ≤ id → fields h' id name = fields h id name) :
    Leads h' first x names v := by
  have hvisited : ∀ e ∈ valueShape.visits (fields h) x names, first ≤ e.1 := by
    intro e he
    have hmem : e.1 ∈ List.range' first names.length := by
      rw [← hleads.fresh]
      exact List.mem_map_of_mem he
    exact (List.mem_range'_1.mp hmem).1
  have hpath := Shape.reads_congr (fun e he => hsame e.1 e.2 (hvisited e he))
  apply Leads.mk
  · rw [hpath.1, hleads.reads]
  · rw [hpath.2, hleads.fresh]
  · intro names' hapart
    obtain ⟨hnil, hbelow⟩ := hleads.elsewhere names' hapart
    have hother := Shape.reads_congr (fun e he => hsame e.1 e.2 (hbelow e he))
    rw [hother.1, hother.2]
    exact ⟨hnil, hbelow⟩

theorem build_length (names : List Text) (v : Value) (h : Heap) :
    (build names v h).2.length = h.length + names.length := by
  induction names generalizing h with
  | nil => rfl
  | cons name names ih =>
      rw [build, Heap.length_set, ih, Heap.length_alloc, List.length_cons]
      omega

theorem build_get (names : List Text) (v : Value) (h : Heap) {id : Nat} (hid : id < h.length)
    (k : Value) : (build names v h).2.get id k = h.get id k := by
  induction names generalizing h with
  | nil => rfl
  | cons name names ih =>
      have hlength := build_length names v h.alloc
      rw [Heap.length_alloc] at hlength
      rw [build, Heap.get_set (by omega) (by exact fun hnil => by cases hnil),
        if_neg (fun hboth => Nat.ne_of_lt hid hboth.1), ih h.alloc
          (Nat.lt_of_lt_of_eq (Nat.lt_succ_of_lt hid) h.length_alloc.symm), Heap.get_alloc]

/-- **Fresh tables lead to the value, and nowhere else.** -/
theorem build_leads (names : List Text) (v : Value) (h : Heap) :
    Leads (build names v h).2 h.length (build names v h).1 names v := by
  induction names generalizing h with
  | nil =>
      apply Leads.mk rfl rfl
      exact fun names' hapart => absurd List.nil_prefix hapart.2
  | cons name names ih =>
      have hinner := ih h.alloc
      have hlength := build_length names v h.alloc
      rw [Heap.length_alloc] at hlength hinner
      have hset : ∀ id' name', fields (build (name :: names) v h).2 id' name' =
          if id' = h.length ∧ name' = name then (build names v h.alloc).1
          else fields (build names v h.alloc).2 id' name' :=
        fields_set (by omega) name (build names v h.alloc).1
      have hbelow : Leads (build (name :: names) v h).2 (h.length + 1) (build names v h.alloc).1
          names v := by
        apply hinner.congr
        intro id name' hid
        rw [hset, if_neg (fun hboth => absurd hboth.1 (by omega))]
      have hfirst : fields (build (name :: names) v h).2 h.length name =
          (build names v h.alloc).1 := by
        rw [hset, if_pos ⟨rfl, rfl⟩]
      have hnode : valueShape.node (build (name :: names) v h).1 = some h.length := rfl
      apply Leads.mk
      · rw [Shape.reads_cons hnode, hfirst, hbelow.reads]
      · rw [Shape.visits_cons hnode, hfirst, List.map_cons, hbelow.fresh, List.length_cons,
          List.range'_succ]
      · intro names' hapart
        cases names' with
        | nil => exact absurd List.nil_prefix hapart.1
        | cons name' names' =>
            rw [Shape.reads_cons hnode, Shape.visits_cons hnode]
            by_cases heq : name' = name
            · subst heq
              obtain ⟨hnil, hvisited⟩ := hbelow.elsewhere names' hapart.tail
              rw [hfirst]
              apply And.intro hnil
              intro e he
              cases List.mem_cons.mp he with
              | inl hhead =>
                  rw [hhead]
              | inr hrest => exact Nat.le_of_succ_le (hvisited e hrest)
            · have hempty : fields (build (name :: names) v h).2 h.length name' =
                  valueShape.absent := by
                rw [hset, if_neg (fun hboth => heq hboth.2), fields,
                  build_get names v h.alloc (by rw [Heap.length_alloc]; omega), Heap.get_alloc,
                  Heap.get_of_le (Nat.le_refl _), valueShape]
              rw [hempty, Shape.reads_of_absent, Shape.visits_of_absent]
              apply And.intro rfl
              intro e he
              rw [List.mem_singleton.mp he]

end FerroRemote.Lua
