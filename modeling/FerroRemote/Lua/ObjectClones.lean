/-
# Clones of objects

A clone is told from the object by what its members return when an unsigned integer is among
what is cloned: that one has another type then, and another text and another number from 2^63
on. Otherwise the two look the same and are pushed the same. The clone of a table has a list
of its own, so what is added to the table later does not show in it. What is added to a table
inside of the table does.
-/

import FerroRemote.Lua.BuiltObjects

namespace FerroRemote.Lua.Objects

/-- `clone` as it is seen -/
def Tree.clone : Tree → Tree
  | .atom value => .atom value.clone
  | .pair first second => .pair first.clone second.clone
  | .table list index => .table list index

/-- An unsigned integer is cloned, by itself or as a half of a pair. What is in a table is
not. -/
def Base.clonesUnsigned : Base → Bool
  | .atom (.uinteger _) => true
  | .atom _ => false
  | .pair first second => first.clonesUnsigned || second.clonesUnsigned
  | .table _ => false

section Shown

variable {s s' : Tables}

mutual
theorem Shows.unique {o : Base} : {t t' : Tree} → Shows s o t → Shows s o t' → t' = t
  | .atom _, _, .atom _, .atom _ => rfl
  | .pair _ _, _, .pair hfirst hsecond, .pair hfirst' hsecond' => by
      rw [hfirst.unique hfirst', hsecond.unique hsecond']
  | .table _ _, _, .table hthere hlist, .table hthere' hlist' => by
      have heq := Option.some.inj (hthere.symm.trans hthere')
      subst heq
      rw [hlist.unique hlist']

theorem ShowsPairs.unique {pairs : List (Base × Base)} :
    {t t' : TreePairs} → ShowsPairs s pairs t → ShowsPairs s pairs t' → t' = t
  | .nil, _, .nil, .nil => rfl
  | .cons _ _ _, _, .cons hfirst hsecond hrest, .cons hfirst' hsecond' hrest' => by
      rw [hfirst.unique hfirst', hsecond.unique hsecond', hrest.unique hrest']
end

theorem Shows.of_table {id : Nat} {t : Tree} (hshows : Shows s (.table id) t) {table : Table}
    (hthere : s[id]? = some table) :
    ∃ list, t = .table list table.index ∧ ShowsPairs s table.list list := by
  cases hshows with
  | @table _ _ list hthere' hlist =>
      have heq := Option.some.inj (hthere'.symm.trans hthere)
      subst heq
      exact ⟨list, rfl, hlist⟩

/-- A table that is shown is not a new one. -/
theorem Shows.of_append {id : Nat} {t : Tree} (hshows : Shows s (.table id) t) {more : Tables}
    {table : Table} (hthere : (s ++ more)[id]? = some table) : s[id]? = some table := by
  cases hshows with
  | table hthere' hlist =>
      rw [List.getElem?_append_left (List.getElem?_eq_some_iff.mp hthere').1] at hthere
      exact hthere

/-- What is in a list looks like a tree too, and like a smaller one. -/
theorem ShowsPairs.of_mem {p : Base × Base} : {pairs : List (Base × Base)} → {t : TreePairs} →
    ShowsPairs s pairs t → p ∈ pairs → ∃ below, Shows s (.pair p.1 p.2) below ∧
      sizeOf below ≤ sizeOf t
  | _, .nil, .nil, hmem => absurd hmem List.not_mem_nil
  | _, .cons f g rest, .cons hfirst hsecond hrest, hmem => by
      rw [TreePairs.cons.sizeOf_spec]
      rcases List.mem_cons.mp hmem with rfl | hmem
      · refine ⟨.pair f g, .pair hfirst hsecond, ?_⟩
        rw [Tree.pair.sizeOf_spec]
        omega
      · rcases hrest.of_mem hmem with ⟨below, hbelow, hsize⟩
        exact ⟨below, hbelow, by omega⟩

/-- The table is the object, or below it. -/
inductive Reaches (s : Tables) (id : Nat) : Base → Prop
  | here : Reaches s id (.table id)
  | first {first second : Base} (hfirst : Reaches s id first) : Reaches s id (.pair first second)
  | second {first second : Base} (hsecond : Reaches s id second) :
      Reaches s id (.pair first second)
  | inside {i : Nat} {t : Table} {p : Base × Base} (hthere : s[i]? = some t) (hmem : p ∈ t.list)
      (hbelow : Reaches s id (.pair p.1 p.2)) : Reaches s id (.table i)

/-- The table is inside of a table that a clone of the object copies. -/
def Base.Inside (s : Tables) (id : Nat) : Base → Prop
  | .atom _ => False
  | .pair first second => first.Inside s id ∨ second.Inside s id
  | .table i => ∃ t, s[i]? = some t ∧ ∃ p ∈ t.list, Reaches s id (.pair p.1 p.2)

/-- What is below an object has a tree that is not greater. -/
theorem Reaches.shows {id : Nat} {o : Base} (hreaches : Reaches s id o) {t : Tree}
    (hshows : Shows s o t) : ∃ below, Shows s (.table id) below ∧ sizeOf below ≤ sizeOf t := by
  induction hreaches generalizing t with
  | here => exact ⟨t, hshows, Nat.le_refl _⟩
  | first _ ih =>
      cases hshows with
      | pair hfirst hsecond =>
          rcases ih hfirst with ⟨below, hbelow, hsize⟩
          rw [Tree.pair.sizeOf_spec]
          exact ⟨below, hbelow, by omega⟩
  | second _ ih =>
      cases hshows with
      | pair hfirst hsecond =>
          rcases ih hsecond with ⟨below, hbelow, hsize⟩
          rw [Tree.pair.sizeOf_spec]
          exact ⟨below, hbelow, by omega⟩
  | inside hthere hmem _ ih =>
      rcases hshows.of_table hthere with ⟨list, rfl, hlist⟩
      rcases hlist.of_mem hmem with ⟨pair, hpair, hle⟩
      rcases ih hpair with ⟨below, hbelow, hsize⟩
      rw [Tree.table.sizeOf_spec]
      exact ⟨below, hbelow, by omega⟩

theorem Shows.not_inside {id : Nat} {t : Tree} (hshows : Shows s (.table id) t) :
    ¬ (Base.table id).Inside s id := by
  rintro ⟨table, hthere, p, hmem, hreaches⟩
  rcases hshows.of_table hthere with ⟨list, rfl, hlist⟩
  rcases hlist.of_mem hmem with ⟨pair, hpair, hle⟩
  rcases hreaches.shows hpair with ⟨below, hbelow, hsize⟩
  rw [hshows.unique hbelow, Tree.table.sizeOf_spec] at hsize
  omega

/-- The tables below an object are as they were. -/
def Keeps (s s' : Tables) (o : Base) : Prop :=
  ∀ id table, Reaches s id o → s[id]? = some table → s'[id]? = some table

theorem Keeps.append (s more : Tables) (o : Base) : Keeps s (s ++ more) o := by
  intro id table _ hthere
  rw [List.getElem?_append_left (List.getElem?_eq_some_iff.mp hthere).1, hthere]

mutual
theorem Shows.transport : {o : Base} → {t : Tree} → Shows s o t → Keeps s s' o → Shows s' o t
  | _, .atom _, .atom value, _ => .atom value
  | _, .pair f g, .pair hfirst hsecond, hkeeps => by
      apply Shows.pair
      · exact hfirst.transport fun id table hreaches => hkeeps id table (.first hreaches)
      · exact hsecond.transport fun id table hreaches => hkeeps id table (.second hreaches)
  | _, .table list _, .table hthere hlist, hkeeps => by
      apply Shows.table (hkeeps _ _ .here hthere)
      apply hlist.transport
      intro p hmem id table hreaches
      exact hkeeps id table (.inside hthere hmem hreaches)

theorem ShowsPairs.transport : {pairs : List (Base × Base)} → {t : TreePairs} →
    ShowsPairs s pairs t → (∀ p ∈ pairs, Keeps s s' (.pair p.1 p.2)) → ShowsPairs s' pairs t
  | _, .nil, .nil, _ => .nil
  | _, .cons f g rest, .cons hfirst hsecond hrest, hkeeps => by
      rw [List.forall_mem_cons] at hkeeps
      apply ShowsPairs.cons
      · exact hfirst.transport fun id table hreaches => hkeeps.1 id table (.first hreaches)
      · exact hsecond.transport fun id table hreaches => hkeeps.1 id table (.second hreaches)
      · exact hrest.transport hkeeps.2
end

theorem Shows.append {o : Base} {t : Tree} (hshows : Shows s o t) (more : Tables) :
    Shows (s ++ more) o t := hshows.transport (Keeps.append s more o)

/-- New tables are not below an object that was there before. -/
theorem Reaches.of_append {id : Nat} {o : Base} {more : Tables}
    (hreaches : Reaches (s ++ more) id o) {t : Tree} (hshows : Shows s o t) : Reaches s id o := by
  induction hreaches generalizing t with
  | here => exact .here
  | first _ ih =>
      cases hshows with
      | pair hfirst hsecond => exact .first (ih hfirst)
  | second _ ih =>
      cases hshows with
      | pair hfirst hsecond => exact .second (ih hsecond)
  | inside hthere hmem _ ih =>
      have hold := hshows.of_append hthere
      rcases hshows.of_table hold with ⟨list, -, hlist⟩
      rcases hlist.of_mem hmem with ⟨pair, hpair, -⟩
      exact .inside hold hmem (ih hpair)

theorem Base.Inside.of_append {id : Nat} {o : Base} {more : Tables}
    (hinside : o.Inside (s ++ more) id) {t : Tree} (hshows : Shows s o t) : o.Inside s id := by
  induction o generalizing t with
  | atom value => exact hinside
  | pair first second ihFirst ihSecond =>
      cases hshows with
      | pair hfirst hsecond =>
          exact hinside.imp (fun hinside => ihFirst hinside hfirst)
            fun hinside => ihSecond hinside hsecond
  | table i =>
      rcases hinside with ⟨table, hthere, p, hmem, hreaches⟩
      have hold := hshows.of_append hthere
      rcases hshows.of_table hold with ⟨list, -, hlist⟩
      rcases hlist.of_mem hmem with ⟨pair, hpair, -⟩
      exact ⟨table, hold, p, hmem, hreaches.of_append hpair⟩

theorem Base.clone_extends (o : Base) (s : Tables) : ∃ more, (o.clone s).2 = s ++ more := by
  induction o generalizing s with
  | atom value => exact ⟨[], (List.append_nil s).symm⟩
  | pair first second ihFirst ihSecond =>
      rcases ihFirst s with ⟨more, hfirst⟩
      rcases ihSecond (first.clone s).2 with ⟨more', hsecond⟩
      refine ⟨more ++ more', ?_⟩
      rw [Base.clone, hsecond, hfirst, List.append_assoc]
  | table id => exact ⟨_, rfl⟩

theorem Shows.after_clone {o : Base} {t : Tree} (hshows : Shows s o t) (o' : Base) :
    Shows (o'.clone s).2 o t := by
  rcases o'.clone_extends s with ⟨more, hmore⟩
  rw [hmore]
  exact hshows.append more

theorem getElem?_concat (s : Tables) (t : Table) : (s ++ [t])[s.length]? = some t := by
  rw [List.getElem?_append_right (Nat.le_refl _), Nat.sub_self]
  rfl

theorem Shows.clone {o : Base} {t : Tree} (hshows : Shows s o t) :
    Shows (o.clone s).2 (o.clone s).1 t.clone := by
  induction o generalizing s t with
  | atom value =>
      cases hshows
      exact .atom value.clone
  | pair first second ihFirst ihSecond =>
      cases hshows with
      | pair hfirst hsecond =>
          have hfirst' := (ihFirst hfirst).after_clone second
          have hsecond' := ihSecond (hsecond.after_clone first)
          exact .pair hfirst' hsecond'
  | table id =>
      cases hshows with
      | @table _ t list hthere hlist =>
          rw [Base.clone, hthere]
          apply Shows.table (getElem?_concat s t)
          exact hlist.transport fun p _ => Keeps.append s _ _

/-- Below a clone are new tables, and those that are inside of a table that was copied. -/
theorem Reaches.of_clone {o : Base} {t : Tree} (hshows : Shows s o t) {i : Nat}
    (hreaches : Reaches (o.clone s).2 i (o.clone s).1) : s.length ≤ i ∨ o.Inside s i := by
  induction o generalizing s t with
  | atom value => cases hreaches
  | pair first second ihFirst ihSecond =>
      cases hshows with
      | pair hfirst hsecond =>
          rcases first.clone_extends s with ⟨more, hmore⟩
          cases hreaches with
          | first hreaches =>
              rcases second.clone_extends (first.clone s).2 with ⟨more', hmore'⟩
              rw [Base.clone, hmore'] at hreaches
              rcases ihFirst hfirst (hreaches.of_append hfirst.clone) with hnew | hinside
              · exact .inl hnew
              · exact .inr (.inl hinside)
          | second hreaches =>
              rcases ihSecond (hsecond.after_clone first) hreaches with hnew | hinside
              · rw [hmore, List.length_append] at hnew
                exact .inl (by omega)
              · rw [hmore] at hinside
                exact .inr (.inr (hinside.of_append hsecond))
  | table id =>
      cases hshows with
      | @table _ t list hthere hlist =>
          rw [Base.clone, hthere] at hreaches
          cases hreaches with
          | here => exact .inl (Nat.le_refl _)
          | inside hthere' hmem hbelow =>
              rw [Option.getD_some, getElem?_concat, Option.some_inj] at hthere'
              subst hthere'
              rcases hlist.of_mem hmem with ⟨pair, hpair, -⟩
              exact .inr ⟨_, hthere, _, hmem, hbelow.of_append hpair⟩

end Shown

def Tables.addAll (s : Tables) (id : Nat) (additions : List (Option Base × Base)) : Tables :=
  additions.foldl (fun s addition => s.add id addition.1 addition.2) s

section Additions

variable {s : Tables} {id : Nat}

theorem getElem?_addAll_of_ne {i : Nat} (hne : i ≠ id) (additions : List (Option Base × Base)) :
    (s.addAll id additions)[i]? = s[i]? := by
  induction additions generalizing s with
  | nil => rfl
  | cons addition additions ih =>
      rw [Tables.addAll, List.foldl_cons]
      apply ih.trans
      exact List.getElem?_modify_ne _ _ (Ne.symm hne)

/-- What is added to a table, and what is made until then, does not show in a clone, unless
the table is inside of one that was copied. -/
theorem Shows.clone_addAll {o : Base} {t : Tree} (hshows : Shows s o t) (hthere : id < s.length)
    (hnot : ¬ o.Inside s id) (more : Tables) (additions : List (Option Base × Base)) :
    Shows (Tables.addAll ((o.clone s).2 ++ more) id additions) (o.clone s).1 t.clone := by
  apply hshows.clone.transport
  intro i table hreaches htable
  have hne : i ≠ id := by
    rintro rfl
    rcases hreaches.of_clone hshows with hnew | hinside
    · omega
    · exact hnot hinside
  rw [getElem?_addAll_of_ne hne]
  exact Keeps.append _ more _ i table hreaches htable

/-- Tables inside are shared: what is added to one of them shows in the clone as it does in
the table that was cloned. -/
theorem shows_clone_iff {t : Table} (hthere : s[id]? = some t) {inside : Nat} (hne : inside ≠ id)
    (hinside : inside < s.length) (additions : List (Option Base × Base)) (below : Tree) :
    Shows (Tables.addAll ((Base.table id).clone s).2 inside additions)
        ((Base.table id).clone s).1 below ↔
      Shows (Tables.addAll ((Base.table id).clone s).2 inside additions) (.table id) below := by
  have hlt : id < s.length := (List.getElem?_eq_some_iff.mp hthere).1
  have hold : (Tables.addAll ((Base.table id).clone s).2 inside additions)[id]? = some t := by
    rw [getElem?_addAll_of_ne (Ne.symm hne), Base.clone, List.getElem?_append_left hlt, hthere]
  have hnew : (Tables.addAll ((Base.table id).clone s).2 inside additions)[s.length]? =
      some t := by
    rw [getElem?_addAll_of_ne (Nat.ne_of_gt hinside), Base.clone, getElem?_concat, hthere]
    rfl
  apply Iff.intro
  · intro hshows
    rcases hshows.of_table hnew with ⟨list, rfl, hlist⟩
    exact .table hold hlist
  · intro hshows
    rcases hshows.of_table hold with ⟨list, rfl, hlist⟩
    exact .table hnew hlist

end Additions

theorem Tree.noneOrNil_clone (t : Tree) : t.clone.noneOrNil = t.noneOrNil := by
  cases t with
  | atom value => cases value <;> rfl
  | pair first second => rfl
  | table list index => rfl

theorem Atom.pushed_clone (value : Atom) : value.clone.pushed = value.pushed := by
  cases value <;> rfl

/-- A clone does to a stack what the object does. Signed or not, an integer is pushed as
the same one. -/
theorem Tree.push_clone {H : Type} (lib : Library H) : (t : Tree) → t.clone.push lib = t.push lib
  | .atom value => by rw [Tree.clone, Tree.push, Tree.push, value.pushed_clone]
  | .pair first second => by
      rw [Tree.clone, Tree.push, Tree.push, first.push_clone lib, second.push_clone lib,
        first.noneOrNil_clone, second.noneOrNil_clone]
  | .table _ _ => rfl

theorem toInt_neg_iff (num : BitVec 64) : num.toInt < 0 ↔ ¬ num.toNat < 2 ^ 63 := by
  have hlt := num.isLt
  rw [BitVec.toInt_eq_toNat_cond]
  split
  · omega
  · omega

theorem toInt_of_lt {num : BitVec 64} (hlt : num.toNat < 2 ^ 63) : num.toInt = num.toNat := by
  rw [BitVec.toInt_eq_toNat_cond, if_pos (by omega)]

/-- The text of an unsigned integer that is cloned is the same below 2^63. -/
theorem Atom.str_clone_uinteger_iff (formats : Formats) (num : BitVec 64) :
    (Atom.uinteger num).clone.str formats = (Atom.uinteger num).str formats ↔
      num.toNat < 2 ^ 63 := by
  rw [Atom.clone, Atom.str, Atom.str]
  apply Iff.intro
  · intro heq
    by_contra hge
    rw [integerText, if_pos ((toInt_neg_iff num).mpr hge)] at heq
    apply not_mem_decimal num.toNat (c := '-') (by decide)
    rw [← heq]
    exact List.mem_cons_self
  · intro hlt
    rw [toInt_of_lt hlt, integerText, if_neg (Int.not_lt.mpr (Int.natCast_nonneg _)),
      Int.natAbs_natCast]

theorem Atom.num_clone_uinteger_iff (rules : NumberRules) (num : BitVec 64) :
    (Atom.uinteger num).clone.num rules = (Atom.uinteger num).num rules ↔ num.toNat < 2 ^ 63 := by
  rw [Atom.clone, Atom.num, Atom.num, LuaNumber.toDouble, LuaNumber.toDouble,
    LuaNumber.whole.injEq]
  apply Iff.intro
  · intro heq
    by_contra hge
    have hneg := (Rounding.roundInt_neg_iff 52 _).mpr ((toInt_neg_iff num).mpr hge)
    rw [heq, Rounding.roundInt_neg_iff] at hneg
    exact absurd hneg (Int.not_lt.mpr (Int.natCast_nonneg _))
  · intro hlt
    rw [toInt_of_lt hlt]

theorem Shows.clone_eq {s : Tables} {o : Base} {t : Tree} (hshows : Shows s o t)
    (hsigned : o.clonesUnsigned = false) : t.clone = t := by
  induction o generalizing t with
  | atom value =>
      cases hshows
      cases value with
      | uinteger num => cases hsigned
      | boolean | nil | lightUserdata | number | integer | string | function => rfl
  | pair first second ihFirst ihSecond =>
      rw [Base.clonesUnsigned, Bool.or_eq_false_iff] at hsigned
      cases hshows with
      | pair hfirst hsecond =>
          rw [Tree.clone, ihFirst hfirst hsigned.1, ihSecond hsecond hsigned.2]
  | table id =>
      cases hshows
      rfl

/-- The members of the objects at the end of every way down return the same. -/
def SameFacts (formats : Formats) (rules : NumberRules) (t t' : Tree) : Prop :=
  ∀ path, (t'.node path).map (Tree.facts formats rules) =
    (t.node path).map (Tree.facts formats rules)

section SameFacts

variable {formats : Formats} {rules : NumberRules}

theorem SameFacts.below {t t' below below' : Tree} (hsame : SameFacts formats rules t t')
    (index : Nat) (hat : t.at index = some below) (hat' : t'.at index = some below') :
    SameFacts formats rules below below' := by
  intro path
  have hpath := hsame (index :: path)
  rw [Tree.node, Tree.node, hat, hat'] at hpath
  exact hpath

/-- An unsigned integer that is cloned has another type, wherever it is. -/
theorem Shows.not_sameFacts {s : Tables} {o : Base} {t : Tree} (hshows : Shows s o t)
    (hunsigned : o.clonesUnsigned = true) : ¬ SameFacts formats rules t t.clone := by
  induction o generalizing t with
  | atom value =>
      cases hshows
      cases value with
      | uinteger num =>
          intro hsame
          have htype := congrArg (Option.map Facts.typeId) (hsame [])
          cases htype
      | boolean | nil | lightUserdata | number | integer | string | function => cases hunsigned
  | pair first second ihFirst ihSecond =>
      rw [Base.clonesUnsigned, Bool.or_eq_true] at hunsigned
      cases hshows with
      | pair hfirst hsecond =>
          intro hsame
          rcases hunsigned with hunsigned | hunsigned
          · exact ihFirst hfirst hunsigned (hsame.below 0 rfl rfl)
          · exact ihSecond hsecond hunsigned (hsame.below 1 rfl rfl)
  | table id => cases hunsigned

end SameFacts

/-- What a clone is for: it looks like the object at every node, does the same when it is
pushed, and does not show what is added later to a table that was cloned, or to any other that
is not inside of one. -/
def Indistinguishable (formats : Formats) (rules : NumberRules) (s : Tables) (o : Base) (t : Tree)
    (clone : Base × Tables) : Prop :=
  ∃ t', Shows clone.2 clone.1 t' ∧ SameFacts formats rules t t' ∧
    (∀ (H : Type) (lib : Library H), t'.push lib = t.push lib) ∧
    ∀ id < s.length, o = .table id ∨ ¬ o.Inside s id → ∀ more additions,
      Shows (Tables.addAll (clone.2 ++ more) id additions) clone.1 t'

/-- A clone is what it should be when no unsigned integer is cloned, by itself or as a half
of a pair, and never else. -/
theorem clone_indistinguishable_iff (formats : Formats) (rules : NumberRules) {s : Tables}
    {o : Base} {t : Tree} (hshows : Shows s o t) :
    Indistinguishable formats rules s o t (o.clone s) ↔ o.clonesUnsigned = false := by
  apply Iff.intro
  · rintro ⟨t', hshown, hsame, -⟩
    rw [Bool.eq_false_iff]
    intro hunsigned
    rw [hshows.clone.unique hshown] at hsame
    exact hshows.not_sameFacts hunsigned hsame
  · intro hsigned
    refine ⟨t.clone, hshows.clone, ?_, fun H lib => t.push_clone lib, ?_⟩
    · rw [hshows.clone_eq hsigned]
      intro path
      rfl
    · intro id hthere hnot more additions
      apply hshows.clone_addAll hthere
      rcases hnot with rfl | hnot
      · exact hshows.not_inside
      · exact hnot

/-- A stream that writes no address and no floating point number here -/
def plainFormats : Formats := ⟨fun _ => [], fun _ => [], fun _ => []⟩

/-- A library whose `long` has 64 bits, and that reads no floating point number here -/
def wholeRules : NumberRules := ⟨fun _ => 0, fun _ => .whole 0, 64⟩

/-- A pair of a name and a table that holds an unsigned integer, which is shared -/
theorem clone_indistinguishable_shared :
    Indistinguishable plainFormats wholeRules [⟨[(.atom (.integer 1), .atom (.uinteger 5))], 2⟩]
      (.pair (.atom (.boolean true)) (.table 0))
      (.pair (.atom (.boolean true))
        (.table (.cons (.atom (.integer 1)) (.atom (.uinteger 5)) .nil) 2))
      (Base.clone (.pair (.atom (.boolean true)) (.table 0))
        [⟨[(.atom (.integer 1), .atom (.uinteger 5))], 2⟩]) := by
  apply (clone_indistinguishable_iff plainFormats wholeRules _).mpr rfl
  apply Shows.pair (.atom _)
  exact Shows.table (t := ⟨_, 2⟩) rfl (.cons (.atom _) (.atom _) .nil)

/-- 2^63, the least that is no signed integer -/
def leastUnsigned : Atom := .uinteger 9223372036854775808

/-- It comes back with another type and another text. -/
theorem unsigned_clone_is_signed :
    leastUnsigned.clone.typeId ≠ leastUnsigned.typeId ∧
      leastUnsigned.clone.str plainFormats = "-9223372036854775808".toList ∧
      leastUnsigned.str plainFormats = "9223372036854775808".toList ∧
      Shows [] (.atom leastUnsigned) (.atom leastUnsigned) ∧
      ¬ Indistinguishable plainFormats wholeRules [] (.atom leastUnsigned) (.atom leastUnsigned)
        (Base.clone (.atom leastUnsigned) []) := by
  have hshows : Shows [] (.atom leastUnsigned) (.atom leastUnsigned) := .atom leastUnsigned
  refine ⟨by decide, by decide +kernel, by decide +kernel, hshows, ?_⟩
  rintro ⟨t', hshown, hsame, -⟩
  rw [hshows.clone.unique hshown] at hsame
  exact hshows.not_sameFacts rfl hsame

end FerroRemote.Lua.Objects
