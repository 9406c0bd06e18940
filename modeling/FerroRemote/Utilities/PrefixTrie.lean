/-
# The prefix trie

A node of a `prefix_trie` has its children in a container that the template takes,
`std::map` or `bin_map`. `push` makes the nodes on the way to a key; `next_info` follows
the input until no child fits, and goes back to behind the last key it came through. A
node is known by its place in the heap here, and the root is at place zero.
-/

import FerroRemote.Utilities.BinMap

namespace FerroRemote.Utilities

/-- A template with the name `Container`, as far as the trie uses it: `find`, and
`insert` of what `find` has not found. -/
structure Container (K V : Type) [DecidableEq K] where
  /-- Its objects. -/
  Map : Type
  empty : Map
  find : Map → K → Option V
  insert : Map → K → V → Map
  find_empty : ∀ key, find empty key = none
  find_insert : ∀ map key value key', find map key = none →
    find (insert map key value) key' = if key' = key then some value else find map key'

/-- `stdmap`: `std::map` keeps the entry that is there. -/
def stdmap (K V : Type) [DecidableEq K] : Container K V where
  Map := Finmap fun _ : K => V
  empty := ∅
  find map key := map.lookup key
  insert map key value := if key ∈ map then map else map.insert key value
  find_empty key := Finmap.lookup_empty key
  find_insert := by
    intro map key value key' hnone
    rw [if_neg (Finmap.lookup_eq_none.mp hnone)]
    by_cases heq : key' = key
    · rw [if_pos heq, heq, Finmap.lookup_insert]
    · rw [if_neg heq, Finmap.lookup_insert_of_ne map heq]

namespace BinMap

variable {K V : Type} [LinearOrder K]

/-- What an iterator that `find` returned points to, if not to the end. -/
def findValue (map : BinMap K V) (key : K) : Option V := (map.find key).head?.map (·.2)

theorem Splits.findValue_eq {map : BinMap K V} {key : K} {before behind : List (K × V)}
    {found : Option V} (hsplits : map.Splits key before found behind) :
    map.findValue key = found := by
  rw [findValue, hsplits.find_eq]
  cases found <;> rfl

theorem Sorted.findValue_eq_some {map : BinMap K V} (hsorted : map.Sorted) (key : K) (v : V) :
    map.findValue key = some v ↔ (key, v) ∈ map.data := by
  obtain ⟨before, found, behind, hsplits⟩ := hsorted.splits key
  rw [hsplits.findValue_eq, hsplits.mem_iff, if_pos rfl]

theorem Splits.findValue_ne {map map' : BinMap K V} {key : K} {before behind : List (K × V)}
    {found found' : Option V} (hsplits : map.Splits key before found behind)
    (hsplits' : map'.Splits key before found' behind) {key' : K} (hne : key' ≠ key) :
    map'.findValue key' = map.findValue key' := by
  apply Option.ext
  intro v
  rw [hsplits'.map_sorted.findValue_eq_some, hsplits.map_sorted.findValue_eq_some,
    hsplits'.mem_iff, hsplits.mem_iff, if_neg hne, if_neg hne]

/-- `bin_map`, with its vector in order. -/
def container (K V : Type) [LinearOrder K] [Inhabited V] : Container K V where
  Map := { map : BinMap K V // map.Sorted }
  empty := ⟨⟨[]⟩, .nil⟩
  find map key := map.val.findValue key
  insert map key value := ⟨map.val.insert (key, value), by
    obtain ⟨before, found, behind, hsplits⟩ := map.property.splits key
    exact (hsplits.assign value).map_sorted⟩
  find_empty := by
    intro key
    apply Option.eq_none_iff_forall_ne_some.mpr
    intro v hfound
    exact absurd ((Sorted.findValue_eq_some .nil key v).mp hfound) List.not_mem_nil
  find_insert := by
    intro map key value key' _
    obtain ⟨before, found, behind, hsplits⟩ := map.property.splits key
    by_cases heq : key' = key
    · rw [if_pos heq, heq]
      exact (hsplits.assign value).findValue_eq
    · rw [if_neg heq]
      exact hsplits.findValue_ne (hsplits.assign value) heq

end BinMap

namespace PrefixTrie

variable {K I : Type} [DecidableEq K]

/-- A node, with its children by their places. -/
structure Node (I : Type) (C : Container K Nat) where
  isEnd : Bool := false
  info : I
  children : C.Map := C.empty

/-- The nodes of a trie. -/
abbrev Heap (I : Type) (C : Container K Nat) : Type := List (Node I C)

variable {C : Container K Nat}

/-- A `prefix_iterator_shifter( inf )`. -/
def new (inf : I) : Heap I C := [{ info := inf }]

namespace Heap

/-- `equal_element`; no place stands for the null pointer. -/
def equalElement (t : Heap I C) (p : Nat) (sym : K) : Option Nat :=
  t[p]?.bind fun node => C.find node.children sym

/-- A new node for `sym` below `p`. -/
def grow [Inhabited I] (t : Heap I C) (p : Nat) (sym : K) : Heap I C :=
  t.modify p (fun node => { node with children := C.insert node.children sym t.length }) ++
    [{ info := default }]

/-- The end of `push`. -/
def mark (t : Heap I C) (p : Nat) (info : I) : Heap I C :=
  t.modify p fun node => { node with info := info, isEnd := true }

/-- The loop of `push`. -/
def pushFrom [Inhabited I] (info : I) : Heap I C → Nat → List K → Heap I C
  | t, p, [] => t.mark p info
  | t, p, sym :: key =>
    match t.equalElement p sym with
    | some tmp => pushFrom info t tmp key
    | none => pushFrom info (t.grow p sym) t.length key

def push [Inhabited I] (t : Heap I C) (key : List K) (info : I) : Heap I C :=
  pushFrom info t 0 key

/-- Is the node at this place the end of a key? -/
def isEnd (t : Heap I C) (p : Nat) : Bool := t[p]?.any (·.isEnd)

/-- The loop of `next_info`, `pos` elements on: the node `last`, and where the iterator
`bb` is. -/
def scan (t : Heap I C) (greedy : Bool) : List K → Nat → Nat → Nat → Nat → Nat × Nat
  | [], _, _, last, bb => (last, bb)
  | sym :: rest, pos, next, last, bb =>
    match t.equalElement next sym with
    | none => (last, bb)
    | some next =>
      if t.isEnd next then
        if greedy then scan t greedy rest (pos + 1) next next (pos + 1) else (next, pos + 1)
      else scan t greedy rest (pos + 1) next last bb

/-- `next_info`: the info, and how far `b` has moved. -/
def nextInfo (t : Heap I C) (input : List K) (greedy : Bool) : Option I × Nat :=
  if input = [] then (t[0]?.map (·.info), 0)
  else
    let (last, bb) := t.scan greedy input 0 0 0 1
    (t[last]?.map (·.info), bb)

end Heap

/-- A trie after a sequence of `push`es. -/
def pushAll [Inhabited I] (C : Container K Nat) (inf : I) (pushes : List (List K × I)) : Heap I C :=
  pushes.foldl (fun t p => t.push p.1 p.2) (new inf)

/-! ## What it is for -/

/-- The info pushed last for a key. -/
def latest (pushes : List (List K × I)) (key : List K) : Option I :=
  (pushes.filter (·.1 = key)).getLast?.map (·.2)

/-- The first `n` elements of the input are a key, and not the empty one. -/
def Matches (stored : List K → Option I) (input : List K) (n : Nat) : Prop :=
  0 < n ∧ n ≤ input.length ∧ (stored (input.take n)).isSome

/-- What to take from the input: the longest key it begins with, or the shortest, or one
element when it begins with none. -/
def Picks (stored : List K → Option I) (root : I) (input : List K) (greedy : Bool)
    (info : I) (moved : Nat) : Prop :=
  (Matches stored input moved ∧ stored (input.take moved) = some info ∧
      ∀ n, Matches stored input n → if greedy then n ≤ moved else moved ≤ n) ∨
    ((∀ n, ¬ Matches stored input n) ∧ info = (stored []).getD root ∧
      moved = min 1 input.length)

namespace Heap

/-- Where a way of symbols leads from a node. -/
def walk (t : Heap I C) : Nat → List K → Option Nat
  | p, [] => some p
  | p, sym :: key => (t.equalElement p sym).bind fun next => t.walk next key

theorem walk_append (t : Heap I C) (p : Nat) (key key' : List K) :
    t.walk p (key ++ key') = (t.walk p key).bind fun next => t.walk next key' := by
  induction key generalizing p with
  | nil => rfl
  | cons sym key ih =>
      rw [List.cons_append, walk, walk]
      cases t.equalElement p sym with
      | none => rfl
      | some next => exact ih next

theorem walk_snoc (t : Heap I C) (p : Nat) (key : List K) (sym : K) :
    t.walk p (key ++ [sym]) = (t.walk p key).bind fun next => t.equalElement next sym := by
  rw [walk_append]
  apply Option.bind_congr
  intro next _
  rw [walk]
  cases t.equalElement next sym <;> rfl

/-- The heap is a tree whose root is at place zero, and its nodes say which ways are
keys. A way that is a key is there. -/
structure Represents (t : Heap I C) (root : I) (stored : List K → Option I) : Prop where
  place : ∀ key p, t.walk 0 key = some p → p < t.length
  tree : ∀ key key' p, t.walk 0 key = some p → t.walk 0 key' = some p → key = key'
  there : ∀ key info, stored key = some info → (t.walk 0 key).isSome
  root_info : t[0]?.map (·.info) = some ((stored []).getD root)
  isEnd : ∀ key p, key ≠ [] → t.walk 0 key = some p → t.isEnd p = (stored key).isSome
  info : ∀ key p info, t.walk 0 key = some p → stored key = some info →
    t[p]?.map (·.info) = some info

variable {t : Heap I C} {root : I} {stored : List K → Option I}

theorem Represents.place_eq_iff (hrep : t.Represents root stored) {key key' : List K} {p q : Nat}
    (hp : t.walk 0 key = some p) (hq : t.walk 0 key' = some q) : q = p ↔ key' = key := by
  apply Iff.intro
  · rintro rfl
    exact hrep.tree key' key q hq hp
  · rintro rfl
    exact Option.some.inj (hq.symm.trans hp)

/-- What has no way to it is no key. -/
theorem Represents.stored_of_leaf (hrep : t.Represents root stored) {key : List K} {p : Nat}
    (hp : t.walk 0 key = some p) {sym : K} (hnew : t.equalElement p sym = none) :
    stored (key ++ [sym]) = none := by
  cases hstored : stored (key ++ [sym]) with
  | none => rfl
  | some info =>
      have hthere := hrep.there _ _ hstored
      rw [walk_snoc, hp, Option.bind_some, hnew] at hthere
      cases hthere

section Grow

variable [Inhabited I]

/-- What is at a place after a node was made below `p`. -/
theorem getElem?_grow (t : Heap I C) (p : Nat) (sym : K) (q : Nat) :
    (t.grow p sym)[q]? =
      if q = t.length then some { info := default }
      else if q = p then t[p]?.map fun node =>
        { node with children := C.insert node.children sym t.length }
      else t[q]? := by
  unfold grow
  rcases Nat.lt_trichotomy q t.length with hlt | heq | hgt
  · rw [List.getElem?_append_left (by rwa [List.length_modify]), List.getElem?_modify,
      if_neg (Nat.ne_of_lt hlt)]
    by_cases hqp : q = p
    · subst hqp
      simp
    · simp [hqp, Ne.symm hqp]
  · rw [List.getElem?_append_right (by rw [List.length_modify, heq]), List.length_modify, heq,
      if_pos rfl, Nat.sub_self]
    rfl
  · rw [List.getElem?_append_right (by rw [List.length_modify]; omega), List.length_modify,
      if_neg (Nat.ne_of_gt hgt)]
    have hnone : t[q]? = none := List.getElem?_eq_none (Nat.le_of_lt hgt)
    have hbehind : ([{ info := default }] : Heap I C)[q - t.length]? = none :=
      List.getElem?_eq_none (by rw [List.length_singleton]; omega)
    by_cases hqp : q = p
    · rw [if_pos hqp, ← hqp, hnone, hbehind]
      rfl
    · rw [if_neg hqp, hnone, hbehind]

theorem equalElement_grow {p : Nat} {sym : K} (hp : p < t.length)
    (hnew : t.equalElement p sym = none) (q : Nat) (sym' : K) :
    (t.grow p sym).equalElement q sym' =
      if q = p ∧ sym' = sym then some t.length
      else if q = t.length then none else t.equalElement q sym' := by
  rw [equalElement, getElem?_grow]
  by_cases hlast : q = t.length
  · have hqp : ¬ (q = p ∧ sym' = sym) := by
      rintro ⟨rfl, -⟩
      omega
    rw [if_pos hlast, if_neg hqp, if_pos hlast]
    exact C.find_empty sym'
  · rw [if_neg hlast, if_neg hlast]
    by_cases hqp : q = p
    · have hnode : t[p]? = some t[p] := List.getElem?_eq_getElem hp
      rw [equalElement, hnode, Option.bind_some] at hnew
      rw [if_pos hqp, hqp, equalElement, hnode, Option.map_some, Option.bind_some, Option.bind_some,
        C.find_insert _ _ _ _ hnew]
      simp only [true_and]
    · have hboth : ¬ (q = p ∧ sym' = sym) := fun heq => hqp heq.1
      rw [if_neg hqp, if_neg hboth, equalElement]

/-- The way to the new node is the only one that is new. -/
theorem walk_grow (hrep : t.Represents root stored) {key : List K} {p : Nat}
    (hp : t.walk 0 key = some p) {sym : K} (hnew : t.equalElement p sym = none) (key' : List K) :
    (t.grow p sym).walk 0 key' =
      if key' = key ++ [sym] then some t.length else t.walk 0 key' := by
  have hplace : p < t.length := hrep.place key p hp
  induction key' using List.reverseRecOn with
  | nil =>
      rw [if_neg (List.append_ne_nil_of_right_ne_nil _ (List.cons_ne_nil _ _)).symm]
      rfl
  | append_singleton key' sym' ih =>
      rw [walk_snoc, walk_snoc, ih]
      by_cases hnode : key' = key ++ [sym]
      · have hlength : key' ++ [sym'] ≠ key ++ [sym] := by
          intro heq
          have := congrArg List.length heq
          simp [hnode] at this
        rw [if_pos hnode, if_neg hlength, hnode, walk_snoc, hp]
        simp [equalElement_grow hplace hnew, hnew, Nat.ne_of_gt hplace]
      · rw [if_neg hnode]
        cases hq : t.walk 0 key' with
        | none =>
            have hne : key' ++ [sym'] ≠ key ++ [sym] := by
              intro heq
              rw [(List.append_inj' heq rfl).1, hp] at hq
              cases hq
            rw [if_neg hne]
            rfl
        | some q =>
            have hlt : q ≠ t.length := Nat.ne_of_lt (hrep.place key' q hq)
            have hiff : q = p ∧ sym' = sym ↔ key' ++ [sym'] = key ++ [sym] := by
              rw [hrep.place_eq_iff hp hq, List.append_singleton_inj]
            rw [Option.bind_some, equalElement_grow hplace hnew, if_neg hlt, Option.bind_some]
            simp only [hiff]

theorem length_grow (t : Heap I C) (p : Nat) (sym : K) : (t.grow p sym).length = t.length + 1 := by
  rw [Heap.grow, List.length_append, List.length_modify]
  rfl

/-- The nodes from before keep their infos and their marks. -/
theorem grow_of_lt (t : Heap I C) (p : Nat) (sym : K) {q : Nat} (hq : q < t.length) :
    (t.grow p sym)[q]?.map (·.info) = t[q]?.map (·.info) ∧
      (t.grow p sym).isEnd q = t.isEnd q := by
  rw [Heap.isEnd, Heap.isEnd, getElem?_grow, if_neg (Nat.ne_of_lt hq)]
  by_cases hqp : q = p
  · rw [if_pos hqp, hqp]
    cases t[p]? <;> exact ⟨rfl, rfl⟩
  · rw [if_neg hqp]
    exact ⟨rfl, rfl⟩

/-- A way in the larger heap: the new one, or one that was there. -/
theorem walk_grow_cases (hrep : t.Represents root stored) {key : List K} {p : Nat}
    (hp : t.walk 0 key = some p) {sym : K} (hnew : t.equalElement p sym = none) {key' : List K}
    {q : Nat} (hq : (t.grow p sym).walk 0 key' = some q) :
    (key' = key ++ [sym] ∧ q = t.length) ∨ (t.walk 0 key' = some q ∧ q < t.length) := by
  rw [walk_grow hrep hp hnew] at hq
  by_cases heq : key' = key ++ [sym]
  · rw [if_pos heq] at hq
    exact .inl ⟨heq, (Option.some.inj hq).symm⟩
  · rw [if_neg heq] at hq
    exact .inr ⟨hq, hrep.place key' q hq⟩

/-- A new node is not a key, and the old ones stay what they are. -/
theorem Represents.grow (hrep : t.Represents root stored) {key : List K} {p : Nat}
    (hp : t.walk 0 key = some p) {sym : K} (hnew : t.equalElement p sym = none) :
    (t.grow p sym).Represents root stored := by
  have hunstored := hrep.stored_of_leaf hp hnew
  have hcases : ∀ {key' : List K} {q : Nat}, (t.grow p sym).walk 0 key' = some q →
      (key' = key ++ [sym] ∧ q = t.length) ∨ (t.walk 0 key' = some q ∧ q < t.length) :=
    fun hq => walk_grow_cases hrep hp hnew hq
  apply Represents.mk
  · intro key' q hq
    rw [length_grow]
    cases hcases hq with
    | inl hlast => exact hlast.2 ▸ Nat.lt_succ_self t.length
    | inr hold => exact Nat.lt_succ_of_lt hold.2
  · intro key₁ key₂ q hq₁ hq₂
    cases hcases hq₁ with
    | inl hlast₁ =>
        cases hcases hq₂ with
        | inl hlast₂ => exact hlast₁.1.trans hlast₂.1.symm
        | inr hold₂ => exact absurd hlast₁.2 (Nat.ne_of_lt hold₂.2)
    | inr hold₁ =>
        cases hcases hq₂ with
        | inl hlast₂ => exact absurd hlast₂.2 (Nat.ne_of_lt hold₁.2)
        | inr hold₂ => exact hrep.tree _ _ _ hold₁.1 hold₂.1
  · intro key' info hstored
    rw [walk_grow hrep hp hnew]
    split
    · rfl
    · exact hrep.there key' info hstored
  · rw [(grow_of_lt t p sym (Nat.zero_lt_of_lt (hrep.place key p hp))).1]
    exact hrep.root_info
  · intro key' q hne hq
    cases hcases hq with
    | inl hlast =>
        rw [hlast.1, hlast.2, hunstored, Heap.isEnd, getElem?_grow, if_pos rfl]
        rfl
    | inr hold =>
        rw [(grow_of_lt t p sym hold.2).2]
        exact hrep.isEnd key' q hne hold.1
  · intro key' q info hq hstored
    cases hcases hq with
    | inl hlast =>
        rw [hlast.1, hunstored] at hstored
        cases hstored
    | inr hold =>
        rw [(grow_of_lt t p sym hold.2).1]
        exact hrep.info key' q info hold.1 hstored

end Grow

theorem getElem?_mark (t : Heap I C) (p : Nat) (info : I) (q : Nat) :
    (t.mark p info)[q]? =
      if q = p then t[p]?.map fun node => { node with info := info, isEnd := true } else t[q]? := by
  rw [mark, List.getElem?_modify]
  by_cases hqp : q = p
  · subst hqp
    simp
  · simp [hqp, Ne.symm hqp]

theorem walk_mark (t : Heap I C) (p : Nat) (info : I) (q : Nat) (key : List K) :
    (t.mark p info).walk q key = t.walk q key := by
  have hchildren : ∀ q sym, (t.mark p info).equalElement q sym = t.equalElement q sym := by
    intro q sym
    rw [equalElement, equalElement, getElem?_mark]
    by_cases hqp : q = p
    · rw [if_pos hqp, hqp]
      cases t[p]? <;> rfl
    · rw [if_neg hqp]
  induction key generalizing q with
  | nil => rfl
  | cons sym key ih =>
      rw [walk, walk, hchildren]
      exact Option.bind_congr fun next _ => ih next

/-- The node of a key gets the key's info. -/
theorem Represents.mark (hrep : t.Represents root stored) {key : List K} {p : Nat}
    (hp : t.walk 0 key = some p) (info : I) :
    (t.mark p info).Represents root fun key' => if key' = key then some info else stored key' := by
  have hplace : p < t.length := hrep.place key p hp
  have hnode : t[p]? = some t[p] := List.getElem?_eq_getElem hplace
  have hinfo : ∀ q, (t.mark p info)[q]?.map (·.info) =
      if q = p then some info else t[q]?.map (·.info) := by
    intro q
    rw [getElem?_mark]
    by_cases hqp : q = p
    · rw [if_pos hqp, if_pos hqp, hnode]
      rfl
    · rw [if_neg hqp, if_neg hqp]
  constructor
  · intro key' q hq
    rw [walk_mark] at hq
    rw [Heap.mark, List.length_modify]
    exact hrep.place key' q hq
  · intro key₁ key₂ q hq₁ hq₂
    rw [walk_mark] at hq₁ hq₂
    exact hrep.tree key₁ key₂ q hq₁ hq₂
  · intro key' info' hstored
    rw [walk_mark]
    by_cases heq : key' = key
    · rw [heq, hp]
      rfl
    · rw [if_neg heq] at hstored
      exact hrep.there key' info' hstored
  · have hiff : 0 = p ↔ [] = key := hrep.place_eq_iff hp rfl
    rw [hinfo]
    simp only [hiff]
    split
    · rfl
    · exact hrep.root_info
  · intro key' q hne hq
    rw [walk_mark] at hq
    have hiff := hrep.place_eq_iff hp hq
    rw [Heap.isEnd, getElem?_mark]
    by_cases hkey : key' = key
    · rw [if_pos (hiff.mpr hkey), if_pos hkey, hnode]
      rfl
    · rw [if_neg (mt hiff.mp hkey), if_neg hkey]
      exact hrep.isEnd key' q hne hq
  · intro key' q info' hq hstored
    rw [walk_mark] at hq
    have hiff := hrep.place_eq_iff hp hq
    rw [hinfo]
    by_cases hkey : key' = key
    · rw [if_pos hkey] at hstored
      rw [if_pos (hiff.mpr hkey), hstored]
    · rw [if_neg hkey] at hstored
      rw [if_neg (mt hiff.mp hkey)]
      exact hrep.info key' q info' hq hstored

variable [Inhabited I]

/-- The loop of `push`, on its way to the key `done ++ key`. -/
theorem Represents.pushFrom (hrep : t.Represents root stored) (info : I) {done : List K} {p : Nat}
    (hp : t.walk 0 done = some p) (key : List K) :
    (t.pushFrom info p key).Represents root
      fun key' => if key' = done ++ key then some info else stored key' := by
  induction key generalizing t done p with
  | nil =>
      rw [List.append_nil]
      exact hrep.mark hp info
  | cons sym key ih =>
      have happend : done ++ sym :: key = done ++ [sym] ++ key := by
        rw [List.append_assoc]
        rfl
      rw [happend, Heap.pushFrom]
      cases hchild : t.equalElement p sym with
      | some tmp =>
          apply ih hrep
          rw [walk_snoc, hp]
          exact hchild
      | none =>
          apply ih (hrep.grow hp hchild)
          rw [walk_grow hrep hp hchild, if_pos rfl]

end Heap

theorem represents_new (root : I) :
    (new root : Heap I C).Represents root fun _ => none := by
  have hleaf : ∀ sym, (new root : Heap I C).equalElement 0 sym = none := fun sym =>
    C.find_empty sym
  have hwalk : ∀ key p, (new root : Heap I C).walk 0 key = some p → key = [] ∧ p = 0 := by
    intro key p hp
    cases key with
    | nil => exact ⟨rfl, (Option.some.inj hp).symm⟩
    | cons sym key =>
        rw [Heap.walk, hleaf] at hp
        cases hp
  constructor
  · intro key p hp
    rw [(hwalk key p hp).2]
    exact Nat.zero_lt_one
  · intro key key' p hp hp'
    rw [(hwalk key p hp).1, (hwalk key' p hp').1]
  · intro key info hstored
    cases hstored
  · rfl
  · intro key p hne hp
    exact absurd (hwalk key p hp).1 hne
  · intro key p info _ hstored
    cases hstored

theorem latest_append (pushes : List (List K × I)) (push : List K × I) :
    latest (pushes ++ [push]) =
      fun key => if key = push.1 then some push.2 else latest pushes key := by
  funext key
  rw [latest, List.filter_append]
  by_cases heq : key = push.1
  · have hthis : List.filter (·.1 = key) [push] = [push] := by
      simp [heq]
    rw [hthis, List.getLast?_concat, if_pos heq]
    rfl
  · have hthis : List.filter (·.1 = key) [push] = [] := by
      simp [Ne.symm heq]
    rw [hthis, List.append_nil, if_neg heq]
    rfl

theorem represents_pushAll [Inhabited I] (C : Container K Nat) (root : I)
    (pushes : List (List K × I)) : (pushAll C root pushes).Represents root (latest pushes) := by
  induction pushes using List.reverseRecOn with
  | nil => exact represents_new root
  | append_singleton pushes push ih =>
      rw [pushAll, List.foldl_append, latest_append]
      have hroot : (pushAll C root pushes).walk 0 [] = some 0 := rfl
      exact ih.pushFrom push.2 hroot push.1

/-! ## The scan -/

namespace Heap

variable {t : Heap I C} {root : I} {stored : List K → Option I}

/-- A key is a way that is there, and so is every beginning of it. -/
theorem Represents.walk_isSome (hrep : t.Represents root stored) {input : List K} {n m : Nat}
    (hmatch : Matches stored input m) (hnm : n ≤ m) : (t.walk 0 (input.take n)).isSome := by
  obtain ⟨info, hinfo⟩ := Option.isSome_iff_exists.mp hmatch.2.2
  have hthere := hrep.there _ _ hinfo
  have hsplit : input.take m = input.take n ++ (input.take m).drop n := by
    calc
      input.take m = (input.take m).take n ++ (input.take m).drop n :=
        (List.take_append_drop n _).symm
      _ = input.take n ++ (input.take m).drop n := by rw [List.take_take, Nat.min_eq_left hnm]
  rw [hsplit, walk_append] at hthere
  cases hwalk : t.walk 0 (input.take n) with
  | none => rw [hwalk] at hthere; cases hthere
  | some p => rfl

/-- What the loop has found in the first `pos` elements: the last key it came through,
or none. One that is not greedy stops at a key. -/
inductive Found (t : Heap I C) (stored : List K → Option I) (input : List K) (greedy : Bool)
    (pos : Nat) : Nat → Nat → Prop
  | none (hnone : ∀ n ≤ pos, ¬ Matches stored input n) : Found t stored input greedy pos 0 1
  | key {last bb : Nat} (hgreedy : greedy = true) (hmatch : Matches stored input bb)
    (hwalk : t.walk 0 (input.take bb) = some last)
    (hlast : ∀ n ≤ pos, Matches stored input n → n ≤ bb) : Found t stored input greedy pos last bb

/-- What the loop ends with: the key to take, or none. -/
inductive Scanned (t : Heap I C) (stored : List K → Option I) (input : List K) (greedy : Bool) :
    Nat × Nat → Prop
  | none (hnone : ∀ n, ¬ Matches stored input n) : Scanned t stored input greedy (0, 1)
  | key {last bb : Nat} (hmatch : Matches stored input bb)
    (hwalk : t.walk 0 (input.take bb) = some last)
    (hbest : ∀ n, Matches stored input n → if greedy then n ≤ bb else bb ≤ n) :
    Scanned t stored input greedy (last, bb)

/-- Where no key goes on behind what was looked at, the loop may stop. -/
theorem Found.scanned {input : List K} {greedy : Bool} {pos last bb : Nat}
    (hfound : Found t stored input greedy pos last bb)
    (hbound : ∀ n, Matches stored input n → n ≤ pos) :
    Scanned t stored input greedy (last, bb) := by
  cases hfound with
  | none hnone => exact .none fun n hmatch => hnone n (hbound n hmatch) hmatch
  | key hgreedy hmatch hwalk hlast =>
      apply Scanned.key hmatch hwalk
      intro n hn
      rw [if_pos hgreedy]
      exact hlast n (hbound n hn) hn

theorem Found.advance {input : List K} {greedy : Bool} {pos last bb : Nat}
    (hfound : Found t stored input greedy pos last bb) (hnot : ¬ Matches stored input (pos + 1)) :
    Found t stored input greedy (pos + 1) last bb := by
  have hbefore : ∀ {n}, n ≤ pos + 1 → Matches stored input n → n ≤ pos := by
    intro n hn hmatch
    apply Nat.le_of_lt_succ
    apply Nat.lt_of_le_of_ne hn
    rintro rfl
    exact hnot hmatch
  cases hfound with
  | none hnone => exact .none fun n hn hmatch => hnone n (hbefore hn hmatch) hmatch
  | key hgreedy hmatch hwalk hlast =>
      exact .key hgreedy hmatch hwalk fun n hn hmatch => hlast n (hbefore hn hmatch) hmatch

/-- The loop from any place on. The induction is on what is left of the input. -/
theorem Represents.scan (hrep : t.Represents root stored) {input : List K} (greedy : Bool)
    {rest : List K} {pos next last bb : Nat} (hrest : input.drop pos = rest)
    (hnext : t.walk 0 (input.take pos) = some next)
    (hfound : Found t stored input greedy pos last bb) :
    Scanned t stored input greedy (t.scan greedy rest pos next last bb) := by
  induction rest generalizing pos next last bb with
  | nil =>
      apply hfound.scanned
      intro n hmatch
      exact Nat.le_trans hmatch.2.1 (List.drop_eq_nil_iff.mp hrest)
  | cons sym rest ih =>
      have hpos : pos < input.length := by
        apply Nat.lt_of_not_le
        intro hle
        rw [List.drop_eq_nil_of_le hle] at hrest
        cases hrest
      obtain ⟨hsym, hdrop⟩ := List.cons.inj ((List.drop_eq_getElem_cons hpos).symm.trans hrest)
      have htake : input.take (pos + 1) = input.take pos ++ [sym] := by
        rw [List.take_succ_eq_append_getElem hpos, hsym]
      have hstep : t.walk 0 (input.take (pos + 1)) = t.equalElement next sym := by
        rw [htake, walk_snoc, hnext]
        rfl
      rw [Heap.scan]
      cases hchild : t.equalElement next sym with
      | none =>
          apply hfound.scanned
          intro n hmatch
          apply Nat.le_of_not_lt
          intro hlt
          have hthere := hrep.walk_isSome hmatch hlt
          rw [hstep, hchild] at hthere
          cases hthere
      | some child =>
          rw [hchild] at hstep
          have hne : input.take (pos + 1) ≠ [] := by
            rw [htake]
            exact List.concat_ne_nil _ _
          have hend := hrep.isEnd _ child hne hstep
          have hmatches : Matches stored input (pos + 1) ↔ t.isEnd child = true := by
            rw [hend]
            exact ⟨fun hmatch => hmatch.2.2, fun hsome => ⟨Nat.succ_pos pos, hpos, hsome⟩⟩
          cases hkey : t.isEnd child with
          | false =>
              simp only [hkey, Bool.false_eq_true, if_false]
              apply ih hdrop hstep
              have hnot : ¬ Matches stored input (pos + 1) := by
                rw [hmatches, hkey]
                exact Bool.false_ne_true
              exact hfound.advance hnot
          | true =>
              have hmatch : Matches stored input (pos + 1) := hmatches.mpr hkey
              cases greedy with
              | true =>
                  simp only [hkey, if_true]
                  exact ih hdrop hstep (.key rfl hmatch hstep fun n hn _ => hn)
              | false =>
                  simp only [hkey, if_true, Bool.false_eq_true, if_false]
                  apply Scanned.key hmatch hstep
                  intro n hn
                  cases hfound with
                  | none hnone =>
                      apply Nat.lt_of_not_le
                      intro hle
                      exact hnone n hle hn
                  | key hgreedy _ _ _ => cases hgreedy

theorem Represents.nextInfo (hrep : t.Represents root stored) (input : List K) (greedy : Bool) :
    ∃ info moved, t.nextInfo input greedy = (some info, moved) ∧
      Picks stored root input greedy info moved := by
  unfold Heap.nextInfo
  by_cases hempty : input = []
  · rw [if_pos hempty, hrep.root_info]
    refine ⟨_, _, rfl, .inr ⟨?_, rfl, by rw [hempty]; rfl⟩⟩
    intro n hmatch
    have hlength := hmatch.2.1
    rw [hempty] at hlength
    exact absurd hmatch.1 (Nat.not_lt_of_le hlength)
  · rw [if_neg hempty]
    have hfirst : Found t stored input greedy 0 0 1 := by
      apply Found.none
      intro n hn hmatch
      exact absurd hmatch.1 (Nat.not_lt_of_le hn)
    have hscanned := hrep.scan greedy (List.drop_zero (l := input)) rfl hfirst
    generalize t.scan greedy input 0 0 0 1 = found at hscanned
    cases hscanned with
    | none hnone =>
        refine ⟨_, _, Prod.ext hrep.root_info rfl, .inr ⟨hnone, rfl, ?_⟩⟩
        have hpos : 0 < input.length := List.length_pos_of_ne_nil hempty
        omega
    | key hmatch hwalk hbest =>
        obtain ⟨info, hinfo⟩ := Option.isSome_iff_exists.mp hmatch.2.2
        exact ⟨info, _, Prod.ext (hrep.info _ _ info hwalk hinfo) rfl, .inl ⟨hmatch, hinfo, hbest⟩⟩

end Heap

omit [DecidableEq K] in
theorem Picks.unique {stored : List K → Option I} {root : I} {input : List K} {greedy : Bool}
    {info info' : I} {moved moved' : Nat} (hpicks : Picks stored root input greedy info moved)
    (hpicks' : Picks stored root input greedy info' moved') : info = info' ∧ moved = moved' := by
  rcases hpicks with ⟨hmatch, hinfo, hbest⟩ | ⟨hnone, hroot, hone⟩
  · rcases hpicks' with ⟨hmatch', hinfo', hbest'⟩ | ⟨hnone', -, -⟩
    · have hmoved : moved = moved' := by
        have hle := hbest moved' hmatch'
        have hge := hbest' moved hmatch
        cases greedy with
        | true => exact Nat.le_antisymm hge hle
        | false => exact Nat.le_antisymm hle hge
      rw [hmoved, hinfo'] at hinfo
      exact ⟨(Option.some.inj hinfo).symm, hmoved⟩
    · exact absurd hmatch (hnone' moved)
  · rcases hpicks' with ⟨hmatch', -, -⟩ | ⟨-, hroot', hone'⟩
    · exact absurd hmatch' (hnone moved')
    · exact ⟨hroot.trans hroot'.symm, hone.trans hone'.symm⟩

/-- **Trie matching.** After any pushes, from whatever containers the nodes are made
(`stdmap` and `BinMap.container` are two), `next_info` takes the longest key the input
begins with, or the shortest, with the info pushed last for it, and one element when
there is none. Pushes of different keys may change places. -/
theorem next_info_picks [Inhabited I] (C C' : Container K Nat) (root : I)
    (pushes pushes' : List (List K × I)) (input : List K) (greedy : Bool) :
    (∃ info moved, (pushAll C root pushes).nextInfo input greedy = (some info, moved) ∧
        Picks (latest pushes) root input greedy info moved) ∧
      ((∀ key, pushes.filter (·.1 = key) = pushes'.filter (·.1 = key)) →
        (pushAll C root pushes).nextInfo input greedy =
          (pushAll C' root pushes').nextInfo input greedy) := by
  obtain ⟨info, moved, hnext, hpicks⟩ := (represents_pushAll C root pushes).nextInfo input greedy
  refine ⟨⟨info, moved, hnext, hpicks⟩, ?_⟩
  intro hsame
  have hlatest : latest pushes' = latest pushes := by
    funext key
    rw [latest, latest, hsame]
  obtain ⟨info', moved', hnext', hpicks'⟩ :=
    (represents_pushAll C' root pushes').nextInfo input greedy
  rw [hlatest] at hpicks'
  obtain ⟨rfl, rfl⟩ := hpicks.unique hpicks'
  rw [hnext, hnext']

end PrefixTrie

end FerroRemote.Utilities
