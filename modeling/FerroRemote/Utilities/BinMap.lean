/-
# The sorted map

`bin_map` keeps its entries in a vector, finds its way in it by binary search, and
inserts and erases by position. That it is a map at all rests on the vector being in
strict order, which every operation needs and has to leave behind.
-/

import FerroRemote.Math.BinarySearch
import FerroRemote.Math.Calls
import Mathlib.Data.Finmap
import Mathlib.Data.Finset.Sort
import Mathlib.Data.List.TakeWhile

namespace FerroRemote.Utilities

/-- A `bin_map`. -/
structure BinMap (K V : Type) where
  /-- `data_`, the entries the vector points to. -/
  data : List (K × V) := []

namespace BinMap

variable {K V : Type} [LinearOrder K]

/-- `at(m) < value` in `bin_lower_bound`. -/
def isBelow (map : BinMap K V) (key : K) (m : Nat) : Bool :=
  map.data[m]?.any fun entry => decide (entry.1 < key)

def lowerBound (map : BinMap K V) (key : K) : Nat :=
  FerroRemote.lowerBound (map.isBelow key) 0 map.data.length

/-- The comparisons of `bin_search`. -/
def compareAt (map : BinMap K V) (key : K) (m : Nat) : Ordering :=
  match map.data[m]? with
  | none => .gt
  | some entry => if entry.1 < key then .lt else if key < entry.1 then .gt else .eq

/-- `search`: the position of the key, or the end. -/
def search (map : BinMap K V) (key : K) : Nat :=
  (binarySearch (map.compareAt key) 0 map.data.length).getD map.data.length

/-- `find`: what the iterator goes through to the end. -/
def find (map : BinMap K V) (key : K) : List (K × V) := map.data.drop (map.search key)

def erase (map : BinMap K V) (key : K) : BinMap K V :=
  let f := map.search key
  if f ≠ map.data.length then ⟨map.data.eraseIdx f⟩ else map

section Default

variable [Inhabited V]

/-- `operator []`: where the reference points, and the map. -/
def index (map : BinMap K V) (key : K) : Nat × BinMap K V :=
  let f := map.lowerBound key
  match map.data[f]? with
  | some entry =>
    if entry.1 ≠ key then (f, ⟨map.data.insertIdx f (key, default)⟩) else (f, map)
  | none => (f, ⟨map.data.insertIdx f (key, default)⟩)

/-- What the reference of `operator []` refers to, and the map. -/
def value (map : BinMap K V) (key : K) : Option V × BinMap K V :=
  let (f, map) := map.index key
  (map.data[f]?.map (·.2), map)

/-- `operator []` with an assignment. -/
def assign (map : BinMap K V) (key : K) (value : V) : BinMap K V :=
  let (f, map) := map.index key
  ⟨map.data.modify f fun entry => (entry.1, value)⟩

def insert (map : BinMap K V) (value : K × V) : BinMap K V := map.assign value.1 value.2

/-- `insert` of the entries of a range. -/
def insertRange (map : BinMap K V) (values : List (K × V)) : BinMap K V :=
  values.foldl insert map

end Default

/-- The vector is in strict order. -/
def Sorted (map : BinMap K V) : Prop := map.data.Pairwise fun e e' => e.1 < e'.1

theorem insertIdx_length {α : Type} (before behind : List α) (a : α) :
    (before ++ behind).insertIdx before.length a = before ++ a :: behind := by
  induction before with
  | nil => rfl
  | cons e before ih => exact congrArg (e :: ·) ih

theorem modify_length {α : Type} (before behind : List α) (a : α) (f : α → α) :
    (before ++ a :: behind).modify before.length f = before ++ f a :: behind := by
  induction before with
  | nil => rfl
  | cons e before ih => exact congrArg (e :: ·) ih

/-- The vector falls into what is before a key and what is behind it, with the key's
own entry between them, if there is one. -/
structure Splits (map : BinMap K V) (key : K) (before : List (K × V)) (found : Option V)
    (behind : List (K × V)) : Prop where
  data_eq : map.data = before ++ ((found.map (key, ·)).toList ++ behind)
  lt : ∀ e ∈ before, e.1 < key
  gt : ∀ e ∈ behind, key < e.1
  sorted : (before ++ behind).Pairwise fun e e' => e.1 < e'.1

variable {map : BinMap K V} {key : K} {before behind : List (K × V)} {found : Option V}

theorem Splits.map_sorted (hsplits : map.Splits key before found behind) : map.Sorted := by
  obtain ⟨hbefore, hbehind, -⟩ := List.pairwise_append.mp hsplits.sorted
  rw [Sorted, hsplits.data_eq]
  cases found with
  | none => exact hsplits.sorted
  | some v =>
      apply List.pairwise_append.mpr
      refine ⟨hbefore, List.pairwise_cons.mpr ⟨hsplits.gt, hbehind⟩, ?_⟩
      intro e he e' he'
      cases he' with
      | head => exact hsplits.lt e he
      | tail _ he' => exact lt_trans (hsplits.lt e he) (hsplits.gt e' he')

/-- A sorted vector falls apart at every key. The induction is on the vector, up to the
first entry that is not before the key. -/
theorem Sorted.splits (hsorted : map.Sorted) (key : K) :
    ∃ before found behind, map.Splits key before found behind := by
  obtain ⟨data⟩ := map
  unfold Sorted at hsorted
  induction data with
  | nil => exact ⟨[], none, [], rfl, List.forall_mem_nil _, List.forall_mem_nil _, .nil⟩
  | cons e data ih =>
      obtain ⟨hhead, htail⟩ := List.pairwise_cons.mp hsorted
      rcases lt_trichotomy e.1 key with hlt | heq | hgt
      · obtain ⟨before, found, behind, hsplits⟩ := ih htail
        have hdata : data = before ++ ((found.map (key, ·)).toList ++ behind) := hsplits.data_eq
        refine ⟨e :: before, found, behind, congrArg (e :: ·) hdata, ?_, hsplits.gt, ?_⟩
        · rw [List.forall_mem_cons]
          exact ⟨hlt, hsplits.lt⟩
        · apply List.pairwise_cons.mpr ⟨?_, hsplits.sorted⟩
          intro e' he'
          apply hhead
          rw [hdata, List.mem_append, List.mem_append]
          exact (List.mem_append.mp he').imp_right .inr
      · subst heq
        exact ⟨[], some e.2, data, rfl, List.forall_mem_nil _, hhead, htail⟩
      · refine ⟨[], none, e :: data, rfl, List.forall_mem_nil _, ?_, hsorted⟩
        rw [List.forall_mem_cons]
        exact ⟨hgt, fun e' he' => lt_trans hgt (hhead e' he')⟩

namespace Splits

/-- What is not before a key is at it or behind it. -/
theorem getElem?_cases (hsplits : map.Splits key before found behind) (i : Nat) :
    (∃ e, map.data[i]? = some e ∧ i < before.length ∧ e.1 < key) ∨
      (before.length ≤ i ∧ map.data[i]? =
        ((found.map (key, ·)).toList ++ behind)[i - before.length]?) := by
  rw [hsplits.data_eq]
  cases Nat.lt_or_ge i before.length with
  | inl hlt =>
      refine .inl ⟨before[i], ?_, hlt, hsplits.lt _ (List.getElem_mem hlt)⟩
      rw [List.getElem?_append_left hlt, List.getElem?_eq_getElem hlt]
  | inr hge => exact .inr ⟨hge, List.getElem?_append_right hge⟩

theorem length_le (hsplits : map.Splits key before found behind) :
    before.length ≤ map.data.length := by
  rw [hsplits.data_eq, List.length_append]
  exact Nat.le_add_right _ _

theorem lowerBound_eq (hsplits : map.Splits key before found behind) :
    map.lowerBound key = before.length := by
  apply FerroRemote.lowerBound_eq (Nat.zero_le _) hsplits.length_le
  intro i _ _
  unfold isBelow
  rcases hsplits.getElem?_cases i with ⟨e, hentry, hi, hlt⟩ | ⟨hi, hentry⟩
  · rw [hentry]
    exact iff_of_true (decide_eq_true hlt) hi
  · apply iff_of_false _ (Nat.not_lt_of_le hi)
    rw [hentry, Option.any_eq_true]
    rintro ⟨e, he, hbelow⟩
    have hlt : e.1 < key := of_decide_eq_true hbelow
    cases List.mem_append.mp (List.mem_of_getElem? he) with
    | inl hfound =>
        obtain ⟨v, -, rfl⟩ := Option.map_eq_some_iff.mp (Option.mem_toList.mp hfound)
        exact lt_irrefl _ hlt
    | inr hbehind => exact lt_asymm hlt (hsplits.gt e hbehind)

theorem compareAt_gt (hsplits : map.Splits key before found behind) {i : Nat}
    (hentry : map.data[i]? = none ∨ ∃ e ∈ behind, map.data[i]? = some e) :
    map.compareAt key i = .gt := by
  unfold compareAt
  rcases hentry with hnone | ⟨e, he, hentry⟩
  · rw [hnone]
  · have hgt := hsplits.gt e he
    simp only [hentry, not_lt_of_gt hgt, if_false, hgt, if_true]

theorem compareAt_of_behind (hsplits : map.Splits key before found behind) {i : Nat}
    (hi : before.length + (found.map (key, ·)).toList.length ≤ i) :
    map.compareAt key i = .gt := by
  apply hsplits.compareAt_gt
  rw [hsplits.data_eq, ← List.append_assoc, List.getElem?_append_right (by simpa using hi)]
  cases hget : behind[i - (before ++ (found.map (key, ·)).toList).length]? with
  | none => exact .inl rfl
  | some e => exact .inr ⟨e, List.mem_of_getElem? hget, rfl⟩

theorem compareAt_of_before (hsplits : map.Splits key before found behind) {i : Nat}
    (hi : i < before.length) : map.compareAt key i = .lt := by
  rcases hsplits.getElem?_cases i with ⟨e, hentry, -, hlt⟩ | ⟨hge, -⟩
  · simp only [compareAt, hentry, hlt, if_true]
  · exact absurd hi (Nat.not_lt_of_le hge)

theorem search_eq (hsplits : map.Splits key before found behind) :
    map.search key = if found.isSome then before.length else map.data.length := by
  have hbefore : ∀ i, 0 ≤ i → i < map.data.length → i < before.length →
      map.compareAt key i = .lt := fun i _ _ hi => hsplits.compareAt_of_before hi
  cases found with
  | none =>
      have hbehind : ∀ i, before.length ≤ i → map.compareAt key i = .gt :=
        fun i hi => hsplits.compareAt_of_behind hi
      have hhit := hbehind before.length (Nat.le_refl _)
      rw [search, binarySearch_eq (Nat.zero_le before.length) hbefore
        (fun i _ _ hi => hbehind i (Nat.le_of_lt hi)) (fun _ => by rw [hhit]; decide), hhit]
      simp
  | some v =>
      have hbehind : ∀ i, before.length < i → map.compareAt key i = .gt :=
        fun i hi => hsplits.compareAt_of_behind hi
      have hlength : before.length < map.data.length := by
        rw [hsplits.data_eq]
        simp
      have hhit : map.compareAt key before.length = .eq := by
        have hentry : map.data[before.length]? = some (key, v) := by
          rw [hsplits.data_eq]
          simp
        simp [compareAt, hentry]
      rw [search, binarySearch_eq (Nat.zero_le before.length) hbefore
        (fun i _ _ hi => hbehind i hi) (fun _ => by rw [hhit]; decide), hhit]
      simp [hlength]

/-- `find` goes through the key's own entry and what is behind it. -/
theorem find_eq (hsplits : map.Splits key before found behind) :
    map.find key = found.elim [] fun v => (key, v) :: behind := by
  rw [find, hsplits.search_eq]
  cases found with
  | none => exact List.drop_length
  | some v =>
      rw [hsplits.data_eq]
      simp

theorem erase (hsplits : map.Splits key before found behind) :
    (map.erase key).Splits key before none behind := by
  refine ⟨?_, hsplits.lt, hsplits.gt, hsplits.sorted⟩
  rw [BinMap.erase, hsplits.search_eq]
  cases found with
  | none => simpa using hsplits.data_eq
  | some v =>
      have hne : before.length ≠ map.data.length := by
        rw [hsplits.data_eq]
        simp
      simp only [Option.isSome_some, if_true, hne, ne_eq, not_false_eq_true]
      rw [hsplits.data_eq, List.eraseIdx_append_of_length_le (Nat.le_refl _)]
      simp

variable [Inhabited V]

/-- `operator []` makes an entry, unless there is one. -/
theorem index (hsplits : map.Splits key before found behind) :
    (map.index key).1 = before.length ∧
      (map.index key).2.Splits key before (some (found.getD default)) behind := by
  rw [BinMap.index, hsplits.lowerBound_eq]
  cases found with
  | some v =>
      have hentry : map.data[before.length]? = some (key, v) := by
        rw [hsplits.data_eq]
        simp
      simp only [hentry, ne_eq, not_true_eq_false, if_false]
      exact ⟨trivial, hsplits⟩
  | none =>
      have hdata : map.data = before ++ behind := hsplits.data_eq
      have hnew : (⟨map.data.insertIdx before.length (key, default)⟩ : BinMap K V).Splits key before
          (some default) behind := by
        refine ⟨?_, hsplits.lt, hsplits.gt, hsplits.sorted⟩
        rw [hdata, insertIdx_length]
        rfl
      cases hentry : map.data[before.length]? with
      | none => exact ⟨rfl, hnew⟩
      | some e =>
          rw [hdata, List.getElem?_append_right (Nat.le_refl _)] at hentry
          have hne : e.1 ≠ key := (hsplits.gt e (List.mem_of_getElem? hentry)).ne'
          simp only [hne, ne_eq, not_false_eq_true, if_true]
          exact ⟨trivial, hnew⟩

theorem value (hsplits : map.Splits key before found behind) :
    (map.value key).1 = some (found.getD default) ∧
      (map.value key).2.Splits key before (some (found.getD default)) behind := by
  obtain ⟨hplace, hindex⟩ := hsplits.index
  refine ⟨?_, hindex⟩
  simp only [BinMap.value, hplace, hindex.data_eq]
  simp

theorem assign (hsplits : map.Splits key before found behind) (v : V) :
    (map.assign key v).Splits key before (some v) behind := by
  obtain ⟨hplace, hindex⟩ := hsplits.index
  refine ⟨?_, hindex.lt, hindex.gt, hindex.sorted⟩
  simp only [BinMap.assign, hplace, hindex.data_eq]
  exact modify_length before behind _ _

end Splits

/-- The entries of a finite map in the order of their keys. -/
def inOrder (m : Finmap fun _ : K => V) : List (K × V) :=
  (m.keys.sort (· ≤ ·)).filterMap fun key => (m.lookup key).map (key, ·)

/-- The vector is in strict order and has the entries of the map. -/
structure Represents (map : BinMap K V) (m : Finmap fun _ : K => V) : Prop where
  sorted : map.Sorted
  lookup : ∀ key v, (key, v) ∈ map.data ↔ m.lookup key = some v

theorem Splits.mem_iff (hsplits : map.Splits key before found behind) (key' : K) (v : V) :
    (key', v) ∈ map.data ↔
      if key' = key then found = some v else (key', v) ∈ before ++ behind := by
  rw [hsplits.data_eq]
  by_cases heq : key' = key
  · subst heq
    have hbefore : (key', v) ∉ before := fun hmem => lt_irrefl _ (hsplits.lt _ hmem)
    have hbehind : (key', v) ∉ behind := fun hmem => lt_irrefl _ (hsplits.gt _ hmem)
    simp [hbefore, hbehind]
  · have hfound : (key', v) ∉ (found.map (key, ·)).toList := by
      rw [Option.mem_toList, Option.map_eq_some_iff]
      rintro ⟨w, -, hentry⟩
      exact heq (congrArg Prod.fst hentry).symm
    simp [heq, hfound]

/-- What is true of a map in which the entry of one key is another one. -/
theorem Represents.update {map' : BinMap K V} {m m' : Finmap fun _ : K => V}
    (hrepresents : map.Represents m) (hsplits : map.Splits key before found behind)
    {found' : Option V} (hsplits' : map'.Splits key before found' behind)
    (hlookup : ∀ k, m'.lookup k = if k = key then found' else m.lookup k) : map'.Represents m' where
  sorted := hsplits'.map_sorted
  lookup := by
    intro k v
    have hold := hrepresents.lookup k v
    rw [hsplits.mem_iff] at hold
    rw [hsplits'.mem_iff, hlookup]
    by_cases heq : k = key
    · simp only [heq, if_true]
    · simp only [heq, if_false] at hold ⊢
      exact hold

theorem Represents.found_eq {m : Finmap fun _ : K => V} (hrepresents : map.Represents m)
    (hsplits : map.Splits key before found behind) : m.lookup key = found := by
  apply Option.ext
  intro v
  rw [← hrepresents.lookup, hsplits.mem_iff, if_pos rfl]

/-- The map goes through its entries in the order of their keys. -/
theorem Represents.inOrder_eq {m : Finmap fun _ : K => V} (hrepresents : map.Represents m) :
    inOrder m = map.data := by
  have hkeys : m.keys = (map.data.map Prod.fst).toFinset := by
    ext key
    rw [Finmap.mem_keys, ← Finmap.lookup_isSome, Option.isSome_iff_exists, List.mem_toFinset,
      List.mem_map]
    constructor
    · rintro ⟨v, hv⟩
      exact ⟨(key, v), (hrepresents.lookup key v).mpr hv, rfl⟩
    · rintro ⟨⟨key', v⟩, hmem, heq⟩
      cases heq
      exact ⟨v, (hrepresents.lookup _ v).mp hmem⟩
  have hsorted : (map.data.map Prod.fst).Pairwise (· < ·) := List.pairwise_map.mpr hrepresents.sorted
  have hsort : m.keys.sort (· ≤ ·) = map.data.map Prod.fst := by
    rw [hkeys]
    apply (List.toFinset_sort (· ≤ ·) (hsorted.imp ne_of_lt)).mpr
    exact hsorted.imp le_of_lt
  have hentry : ∀ e ∈ map.data, ((m.lookup e.1).map (e.1, ·) : Option (K × V)) = some e := by
    intro e he
    rw [(hrepresents.lookup e.1 e.2).mp he]
    rfl
  rw [inOrder, hsort, List.filterMap_map]
  exact (List.filterMap_congr hentry).trans List.filterMap_some

theorem represents_empty : (⟨[]⟩ : BinMap K V).Represents ∅ where
  sorted := .nil
  lookup := by
    intro key v
    rw [Finmap.lookup_empty]
    exact iff_of_false List.not_mem_nil (fun h => nomatch h)

theorem Represents.erase {m : Finmap fun _ : K => V} (hrepresents : map.Represents m) (key : K) :
    (map.erase key).Represents (m.erase key) := by
  obtain ⟨before, found, behind, hsplits⟩ := hrepresents.sorted.splits key
  apply hrepresents.update hsplits hsplits.erase
  intro k
  by_cases heq : k = key
  · rw [heq, Finmap.lookup_erase, if_pos rfl]
  · rw [Finmap.lookup_erase_ne heq, if_neg heq]

theorem Represents.find {m : Finmap fun _ : K => V} (hrepresents : map.Represents m) (key : K) :
    map.find key = (inOrder m).dropWhile (·.1 ≠ key) := by
  obtain ⟨before, found, behind, hsplits⟩ := hrepresents.sorted.splits key
  have hbefore : ∀ e ∈ before, decide (e.1 ≠ key) = true :=
    fun e he => decide_eq_true (hsplits.lt e he).ne
  have hbehind : ∀ e ∈ behind, decide (e.1 ≠ key) = true :=
    fun e he => decide_eq_true (hsplits.gt e he).ne'
  rw [hrepresents.inOrder_eq, hsplits.find_eq, hsplits.data_eq,
    List.dropWhile_append_of_pos hbefore]
  cases found with
  | none => exact (List.dropWhile_eq_nil_iff.mpr hbehind).symm
  | some v => simp

inductive Call (K V : Type)
  | insert (value : K × V)
  | insertRange (values : List (K × V))
  /-- `operator []`, read. -/
  | value (key : K)
  /-- `operator []`, assigned to. -/
  | assign (key : K) (value : V)
  | erase (key : K)
  | find (key : K)
  /-- From `begin` to `end`. -/
  | iterate

inductive Answer (K V : Type)
  | done
  | value (value : Option V)
  /-- The entries an iterator goes through up to the end; the end has none. -/
  | entries (entries : List (K × V))

section Calls

variable [Inhabited V]

/-- A call on a `bin_map`. -/
def call (map : BinMap K V) : Call K V → Answer K V × BinMap K V
  | .insert value => (.done, map.insert value)
  | .insertRange values => (.done, map.insertRange values)
  | .value key => (.value (map.value key).1, (map.value key).2)
  | .assign key value => (.done, map.assign key value)
  | .erase key => (.done, map.erase key)
  | .find key => (.entries (map.find key), map)
  | .iterate => (.entries map.data, map)

def finiteCall (m : Finmap fun _ : K => V) : Call K V → Answer K V × Finmap fun _ : K => V
  | .insert value => (.done, m.insert value.1 value.2)
  | .insertRange values => (.done, values.foldl (fun m value => m.insert value.1 value.2) m)
  | .value key =>
    (.value (some ((m.lookup key).getD default)),
      m.insert key ((m.lookup key).getD default))
  | .assign key value => (.done, m.insert key value)
  | .erase key => (.done, m.erase key)
  | .find key => (.entries ((inOrder m).dropWhile (·.1 ≠ key)), m)
  | .iterate => (.entries (inOrder m), m)

theorem Represents.assign {m : Finmap fun _ : K => V} (hrepresents : map.Represents m) (key : K)
    (v : V) : (map.assign key v).Represents (m.insert key v) := by
  obtain ⟨before, found, behind, hsplits⟩ := hrepresents.sorted.splits key
  apply hrepresents.update hsplits (hsplits.assign v)
  intro k
  by_cases heq : k = key
  · rw [heq, Finmap.lookup_insert, if_pos rfl]
  · rw [Finmap.lookup_insert_of_ne m heq, if_neg heq]

theorem Represents.insertRange {m : Finmap fun _ : K => V} (hrepresents : map.Represents m)
    (values : List (K × V)) :
    (map.insertRange values).Represents
      (values.foldl (fun m value => m.insert value.1 value.2) m) := by
  induction values generalizing map m with
  | nil => exact hrepresents
  | cons value values ih => exact ih (hrepresents.assign value.1 value.2)

theorem Represents.value {m : Finmap fun _ : K => V} (hrepresents : map.Represents m) (key : K) :
    (map.value key).1 = some ((m.lookup key).getD default) ∧
      (map.value key).2.Represents (m.insert key ((m.lookup key).getD default)) := by
  obtain ⟨before, found, behind, hsplits⟩ := hrepresents.sorted.splits key
  obtain ⟨hvalue, hnext⟩ := hsplits.value
  rw [hrepresents.found_eq hsplits]
  refine ⟨hvalue, hrepresents.update hsplits hnext ?_⟩
  intro k
  by_cases heq : k = key
  · rw [heq, Finmap.lookup_insert, if_pos rfl]
  · rw [Finmap.lookup_insert_of_ne m heq, if_neg heq]

/-- A call is answered as the finite map answers it, and leaves what it leaves. -/
theorem call_simulates :
    Calls.Simulates (call (K := K) (V := V)) finiteCall Represents := by
  intro map m c hrepresents
  cases c with
  | insert value => exact ⟨rfl, hrepresents.assign value.1 value.2⟩
  | insertRange values => exact ⟨rfl, hrepresents.insertRange values⟩
  | value key =>
      obtain ⟨hvalue, hnext⟩ := hrepresents.value key
      exact ⟨congrArg Answer.value hvalue, hnext⟩
  | assign key value => exact ⟨rfl, hrepresents.assign key value⟩
  | erase key => exact ⟨rfl, hrepresents.erase key⟩
  | find key => exact ⟨congrArg Answer.entries (hrepresents.find key), hrepresents⟩
  | iterate => exact ⟨congrArg Answer.entries hrepresents.inOrder_eq.symm, hrepresents⟩

/-- **The sorted map is a map.** Over every sequence of calls the vector stays in strict
order, and every answer is the one of a finite map under the same calls. -/
theorem bin_map_is_finite_map (calls : List (Call K V)) :
    (Calls.final call (⟨[]⟩ : BinMap K V) calls).Sorted ∧
      Calls.answers call (⟨[]⟩ : BinMap K V) calls = Calls.answers finiteCall ∅ calls := by
  obtain ⟨hanswers, hfinal⟩ := call_simulates.run represents_empty calls
  exact ⟨hfinal.sorted, hanswers⟩

end Calls

end BinMap

end FerroRemote.Utilities
