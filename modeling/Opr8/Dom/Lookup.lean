import Opr8.Dom.Marshal
import Opr8.Dom.Move

/-!
# Opr8 — lookups by name: `Child`, `Attribute` and the default namespace

`Child(name)` walks the child list and stops at the first child that is a `Namer` of that
name; `ChildByName` builds the whole list of such children first and takes its head.
`Attribute(name)` walks the attribute list the same way, asserting each node an
attribute: `it.value.(*attribute)` panics on any other payload. `FirstAttribute` and
`LastAttribute` read the head and the head's backward link. `defaultNamespace` walks up
from a node through its parents and, at each, through its attributes, to the first
attribute named `xmlns`, and answers the node it is on and that attribute's value.

Each loop is given the `s.next` rounds the other loops get. On a well-formed store whose
attribute lists hold attributes only (`AttrsTyped`), every loop over a list is `find?` over
that list.

Main results:

* `child_eq_childByName` — the early exit agrees with the full walk: wherever
  `ChildByName` returns, `Child` returns the same node, and on a well-formed store both
  are the first child of that name.
* `attribute_insert_lookup` — after `AppendAttribute`, a lookup by name finds the first
  earlier attribute of that name and only otherwise the new one, which is the last; after
  `PrependAttribute` the new attribute is the first and every lookup of its name finds it.
* `defaultNamespace_nearest` — `defaultNamespace` returns, and answers the first node of
  the parent chain (the node itself, then its ancestors) that declares a default
  namespace, with the value it declares.
-/

namespace Opr8.Dom

open Xml Store

namespace Store

/-- `n.Child(name)`: the loop from the first child to the first `Namer` of that name, the
forward scan of the iterator with the name as its filter. -/
def Child (s : Store) (n : Nat) (name : Name) : Option (Option Nat) :=
  scanNext s (fun c => (s.value c).bind Value.namer? = some name) s.next (s.firstChild n)

/-- The loop of `Attribute`, and of `iterAttributes` with the callback of
`defaultNamespace`, from `it`: the first node whose attribute has that name, with the
attribute, as the `attrNode` the source builds wraps both. Each node is asserted an
attribute, which panics on any other payload. -/
def attrScan (s : Store) (name : Name) : Nat → Option Nat → Option (Option (Nat × Attr))
  | _, none => some none
  | 0, some _ => none
  | fuel + 1, some it => do
    let a ← s.attrOf it
    if a.name = name then some (some (it, a)) else s.attrScan name fuel (s.nextSib it)

/-- `n.Attribute(name)`: the node of the `attrNode` it returns. -/
def Attribute (s : Store) (n : Nat) (name : Name) : Option (Option Nat) :=
  (s.attrScan name s.next (s.firstAttr n)).map (Option.map Prod.fst)

/-- `n.FirstAttribute()`: the head of the attribute list, asserted an attribute. -/
def FirstAttribute (s : Store) (n : Nat) : Option (Option Nat) :=
  match s.firstAttr n with
  | none => some none
  | some h => (s.attrOf h).map fun _ => some h

/-- `n.LastAttribute()`: the head's backward link, asserted an attribute; a nil link
panics. -/
def LastAttribute (s : Store) (n : Nat) : Option (Option Nat) :=
  match s.firstAttr n with
  | none => some none
  | some h => (s.prevSib h).bind fun t => (s.attrOf t).map fun _ => some t

/-- The loop of `defaultNamespace` from `it` up the parent links: at each node the
attribute loop for `xmlnsDefault`; the node and the attribute's value at the first match,
nil and `""` once the chain ends. -/
def nsLoop (s : Store) : Nat → Option Nat → Option (Option Nat × String)
  | _, none => some (none, "")
  | 0, some _ => none
  | fuel + 1, some it => do
    match ← s.attrScan xmlnsDefault s.next (s.firstAttr it) with
    | some (_, a) => some (some it, a.value)
    | none => s.nsLoop fuel (s.parent it)

/-- `n.defaultNamespace()`. -/
def defaultNamespace (s : Store) (n : Nat) : Option (Option Nat × String) :=
  s.nsLoop s.next (some n)

end Store

/-- Every attribute list holds attribute nodes only. -/
def AttrsTyped (s : Store) (A : Nat → List Nat) : Prop := ∀ m, ∀ q ∈ A m, (s.attrOf q).isSome

/-- The default namespace `m` declares: the value of its first attribute named `xmlns`. -/
def declaredNS (s : Store) (A : Nat → List Nat) (m : Nat) : Option String :=
  ((A m).findSome? fun q => (s.attrOf q).filter (·.name = xmlnsDefault)).map (·.value)

/-! ## The loops over a list -/

section Lists

variable {α β : Type}

theorem findSome?_pair_fst (l : List α) (g : α → Option β) :
    (l.findSome? fun q => (g q).map (q, ·)).map Prod.fst = l.find? fun q => (g q).isSome := by
  induction l with
  | nil => rfl
  | cons q l ih => cases h : g q <;> simp [List.findSome?_cons, List.find?_cons, h, ih]

theorem findSome?_pair_snd (l : List α) (g : α → Option β) :
    (l.findSome? fun q => (g q).map (q, ·)).map Prod.snd = l.findSome? g := by
  induction l with
  | nil => rfl
  | cons q l ih => cases h : g q <;> simp [List.findSome?_cons, h, ih]

theorem find?_congr_mem {p q : α → Bool} : ∀ {l : List α}, (∀ x ∈ l, p x = q x) →
    l.find? p = l.find? q
  | [], _ => rfl
  | x :: _, h => by
    simp only [List.find?_cons, h x (List.mem_cons_self _ _),
      find?_congr_mem fun y hy => h y (List.mem_cons_of_mem _ hy)]

end Lists

section Loops

variable {s : Store}

theorem attrScan_of_seg (name : Name) : ∀ {fuel : Nat} {h : Option Nat} {l : List Nat},
    Seg s.nextSib h l none → l.length ≤ fuel → (∀ q ∈ l, (s.attrOf q).isSome) →
    s.attrScan name fuel h =
      some (l.findSome? fun q => ((s.attrOf q).filter (·.name = name)).map (q, ·))
  | fuel, _, [], hs, _, _ => by rw [seg_nil.mp hs]; cases fuel <;> rfl
  | fuel + 1, _, p :: l, ⟨rfl, hs⟩, hl, ht => by
    obtain ⟨a, ha⟩ := Option.isSome_iff_exists.mp (ht p (List.mem_cons_self _ _))
    have ih := attrScan_of_seg name hs (by simpa using hl)
      fun q hq => ht q (List.mem_cons_of_mem _ hq)
    by_cases hn : a.name = name
    · simp [attrScan, ha, hn, List.findSome?_cons, Option.filter_some]
    · simp [attrScan, ha, hn, ih, List.findSome?_cons, Option.filter_some]
  | 0, _, _ :: _, _, hl, _ => absurd hl (by simp)

theorem walk_scanNext (keep : Nat → Bool) : ∀ {fuel : Nat} {h : Option Nat} {l : List Nat},
    s.walk fuel h = some l → scanNext s keep fuel h = some (l.find? keep)
  | fuel, none, l, hl => by
    obtain rfl : l = [] := by simpa using hl.symm
    cases fuel <;> rfl
  | 0, some _, _, hl => nomatch hl
  | fuel + 1, some p, l, hl => by
    obtain ⟨l', hl', rfl⟩ := Option.map_eq_some'.mp hl
    by_cases hk : keep p
    · simp [scanNext, hk]
    · simp [scanNext, hk, walk_scanNext keep hl']

end Loops

/-! ## Reads under a well-formed store -/

section Reads

variable {s : Store} {C A : Nat → List Nat}

theorem attribute_eq (hs : Shape s C A) (hb : Bounded s C A) (ht : AttrsTyped s A)
    (n : Nat) (name : Name) :
    s.Attribute n name = some ((A n).find? fun q => (s.attrOf q).any (·.name = name)) := by
  rw [Store.Attribute, attrScan_of_seg name (hs.attrs n).next
    (length_le_of_nodup (hs.attrs n).nodup (hb.attrs n)) (ht n), Option.map_some',
    findSome?_pair_fst]
  congr 2
  funext q
  cases s.attrOf q with
  | none => rfl
  | some a => by_cases h : a.name = name <;> simp [Option.filter_some, h]

theorem firstAttribute_eq (hs : Shape s C A) (ht : AttrsTyped s A) (n : Nat) :
    s.FirstAttribute n = some (A n).head? := by
  rw [Store.FirstAttribute, (hs.attrs n).head_eq]
  cases h : (A n).head? with
  | none => rfl
  | some q =>
    obtain ⟨a, ha⟩ := Option.isSome_iff_exists.mp (ht n q (List.mem_of_mem_head? h))
    simp [ha]

theorem lastAttribute_eq (hs : Shape s C A) (ht : AttrsTyped s A) (n : Nat) :
    s.LastAttribute n = some (A n).getLast? := by
  rw [Store.LastAttribute, (hs.attrs n).head_eq]
  cases h : (A n).head? with
  | none => simp [List.head?_eq_none_iff.mp h]
  | some q =>
    obtain ⟨t, ht'⟩ : ∃ t, (A n).getLast? = some t := by
      rcases List.eq_nil_or_concat (A n) with hA | ⟨L, t, hA⟩
      · simp [hA] at h
      · exact ⟨t, by simp [hA]⟩
    obtain ⟨a, ha⟩ := Option.isSome_iff_exists.mp (ht n t (List.mem_of_getLast?_eq_some ht'))
    simp [(hs.attrs n).prev_head h, ht', ha]

theorem child_eq (hs : Shape s C A) (hb : Bounded s C A) (n : Nat) (name : Name) :
    s.Child n name = some ((C n).find? fun c => (s.value c).bind Value.namer? = some name) :=
  walk_scanNext _ (iterChildren_eq hs hb n)

/-- **`Child` agrees with `ChildByName`.** Wherever the full walk of `ChildByName` returns,
the early exit of `Child` returns too, with the same node: the head of the named children
is the first named child. -/
theorem child_eq_childByName {n : Nat} {name : Name} {r : Option Nat}
    (h : s.ChildByName n name = some r) : s.Child n name = some r := by
  obtain ⟨l, hl, rfl⟩ : ∃ l, s.iterChildren n = some l ∧
      r = (l.filter fun c => (s.value c).bind Value.namer? = some name).head? := by
    simp only [Store.ChildByName, Store.ChildrenByName, Option.map_map] at h
    obtain ⟨l, hl, rfl⟩ := Option.map_eq_some'.mp h
    exact ⟨l, hl, rfl⟩
  rw [List.filter_head?]
  exact walk_scanNext _ hl

theorem child_eq_childByName_docChildAndElement :
    docChildAndElement.ChildByName 0 ⟨"", "a"⟩ = some (some 1) ∧
      docChildAndElement.Child 0 ⟨"", "a"⟩ = some (some 1) :=
  ⟨by decide, child_eq_childByName (by decide)⟩

/-- A lookup reads the payloads of the list it walks only. -/
theorem attrOf_eq_of_value {s' : Store} {q : Nat} (h : s'.value q = s.value q) :
    s'.attrOf q = s.attrOf q := by
  simp only [Store.attrOf, h]

/-- A store that keeps the payloads below the frontier keeps every attribute list typed, and
a list of `n` drawn from the old one and from new attributes is typed too. -/
theorem AttrsTyped.update {s' : Store} (ht : AttrsTyped s A) (hb : Bounded s C A)
    (hv : ∀ q < s.next, s'.value q = s.value q) {n : Nat} {l : List Nat}
    (hl : ∀ q ∈ l, q ∈ A n ∨ (s'.attrOf q).isSome) : AttrsTyped s' (Function.update A n l) := by
  have old : ∀ m, ∀ q ∈ A m, (s'.attrOf q).isSome := fun m q hq => by
    rw [attrOf_eq_of_value (hv q (hb.attrs m q hq))]
    exact ht m q hq
  intro m q hq
  by_cases hm : m = n
  · subst hm
    rw [Function.update_same] at hq
    exact (hl q hq).elim (old m q) id
  · exact old m q (by rwa [Function.update_noteq hm] at hq)

end Reads

/-! ## A declared default namespace -/

/-- `nestedElements` with the default namespace `urn:d` declared on the element `1`, by the
attribute `3`. -/
def nestedDeclared : Store :=
  (appendAttrs 1 [⟨xmlnsDefault, "urn:d"⟩] nestedElements).getD nestedElements

theorem nestedDeclared_spec :
    Shape nestedDeclared (Function.update (Function.update (fun _ => []) 0 [1]) 1 [2])
      (Function.update (fun _ => []) 1 [3]) ∧
    Bounded nestedDeclared (Function.update (Function.update (fun _ => []) 0 [1]) 1 [2])
      (Function.update (fun _ => []) 1 [3]) ∧
    AttrsTyped nestedDeclared (Function.update (fun _ => []) 1 [3]) ∧
    Acyclic nestedDeclared ∧ ParentsBelow nestedDeclared := by
  obtain ⟨s', h, hs, hb, hnext, -⟩ := appendAttrs_spec [⟨xmlnsDefault, "urn:d"⟩]
    nestedElements_shape nestedElements_bounded (show 1 < nestedElements.next by decide)
  obtain rfl : s' = nestedDeclared := by simp [nestedDeclared, h]
  have hsub := appendAttrs_parent_sub 1 _ h
  have hA : Function.update (fun _ => []) 1 ((fun _ => ([] : List Nat)) 1 ++
      List.range' nestedElements.next [(⟨xmlnsDefault, "urn:d"⟩ : Attr)].length) =
      Function.update (fun _ => []) 1 [3] := rfl
  rw [hA] at hs hb
  refine ⟨hs, hb, fun m q hq => ?_, nestedElements_acyclic.of_parent_sub hsub,
    nestedElements_parentsBelow.of_parent_sub (by omega) hsub⟩
  by_cases hm : m = 1
  · subst hm
    obtain rfl : q = 3 := by simpa using hq
    rfl
  · simp [Function.update_noteq hm] at hq

/-! ## Lookups after an insertion -/

section Insert

variable {s : Store} {C A : Nat → List Nat} {n : Nat}

/-- What `PrependAttribute` leaves under an Element or a Declaration: a well-formed store
whose attribute list of `n` is the new attribute, at the old frontier, before the old
list, with the old payloads kept. -/
theorem prependAttribute_spec (hs : Shape s C A) (hb : Bounded s C A) (hn : n < s.next)
    (hk : allowInsertAttribute (s.nodeType n) = true) (a : Attr) :
    ∃ s', PrependAttribute n a s = some (none, s') ∧
      Shape s' C (Function.update A n (s.next :: A n)) ∧
      Bounded s' C (Function.update A n (s.next :: A n)) ∧
      (∀ q < s.next, s'.value q = s.value q) ∧ s'.attrOf s.next = some a := by
  have hd := hb.detached_push (.attribute a)
  have hr : Relinked (s.push (.attribute a)) (prependAttribute s.next n (s.push (.attribute a)))
      .attributes n s.next (A n) (s.next :: A n) :=
    prependSibling_relinked (show SibList (s.push (.attribute a))
      ((s.push (.attribute a)).head .attributes n) (A n) from (hs.push hb _).attrs n) (hd.attrs n)
  have hv : ∀ q, (prependAttribute s.next n (s.push (.attribute a))).value q =
      (s.push (.attribute a)).value q := hr.value
  refine ⟨_, by simp [PrependAttribute, allowInsertAttributeErr, hk, newAttribute],
    (hs.push hb (.attribute a)).relinkAttr hd (by simp [or_comm]) hr, ?_,
    fun q hq => by simp [hv, Function.update_noteq (ne_of_lt hq)], by simp [Store.attrOf, hv]⟩
  refine ((hb.push _).update_attrs (by simp; omega) fun q hq => ?_).of_le hr.next.symm.le
  rcases List.mem_cons.mp hq with rfl | hq
  · simp
  · exact lt_of_lt_of_le (hb.attrs n q hq) (Nat.le_succ _)

/-- **Attributes are looked up where they were inserted.** Under an Element or a
Declaration `n` of a well-formed store whose attribute lists hold attributes, after
`AppendAttribute` a lookup of any name finds the first earlier attribute of that name, and
the new attribute only when there is none: an appended attribute never shadows an earlier
one of its name. The new attribute is the last. After `PrependAttribute` the new attribute
is the first, and a lookup of its name finds it. -/
theorem attribute_insert_lookup (hs : Shape s C A) (hb : Bounded s C A) (ht : AttrsTyped s A)
    (hn : n < s.next) (hk : allowInsertAttribute (s.nodeType n) = true) (a : Attr) :
    (∃ s', AppendAttribute n a s = some (none, s') ∧
      (∀ name, s'.Attribute n name =
        some (((A n).find? fun q => (s.attrOf q).any (·.name = name)).or
          (if a.name = name then some s.next else none))) ∧
      s'.LastAttribute n = some (some s.next)) ∧
    (∃ s', PrependAttribute n a s = some (none, s') ∧
      (∀ name, s'.Attribute n name = if a.name = name then some (some s.next)
        else some ((A n).find? fun q => (s.attrOf q).any (·.name = name))) ∧
      s'.FirstAttribute n = some (some s.next)) := by
  -- the old attributes of `n` are read the same in any store that keeps their payloads
  have keep : ∀ {s' : Store}, (∀ q < s.next, s'.value q = s.value q) → ∀ name,
      ((A n).find? fun q => (s'.attrOf q).any (·.name = name)) =
        (A n).find? fun q => (s.attrOf q).any (·.name = name) := fun hv name =>
    find?_congr_mem fun q hq => by rw [attrOf_eq_of_value (hv q (hb.attrs n q hq))]
  -- and the new list of `n`, old attributes and the new one, holds attributes
  have typed : ∀ {s' : Store} {l : List Nat}, (∀ q < s.next, s'.value q = s.value q) →
      s'.attrOf s.next = some a → (∀ q ∈ l, q ∈ A n ∨ q = s.next) →
      AttrsTyped s' (Function.update A n l) := fun hv hnew hl =>
    ht.update hb hv fun q hq => (hl q hq).imp id fun h => by simp [h, hnew]
  constructor
  · obtain ⟨s', h', hs', hb', -, hvals, hvlt, -⟩ := appendAttrs_spec [a] hs hb hn
    have hnew : s'.attrOf s.next = some a := by simpa using hvals
    have ht' : AttrsTyped s' (Function.update A n (A n ++ List.range' s.next [a].length)) :=
      typed hvlt hnew fun q hq => by simpa using hq
    refine ⟨s', by rw [appendAttribute_eq_appendAttrs hk, h']; rfl, fun name => ?_, ?_⟩
    · rw [attribute_eq hs' hb' ht' n name]
      simp [List.find?_append, keep hvlt name, hnew]
    · rw [lastAttribute_eq hs' ht' n]
      simp
  · obtain ⟨s', h', hs', hb', hvlt, hnew⟩ := prependAttribute_spec hs hb hn hk a
    have ht' : AttrsTyped s' (Function.update A n (s.next :: A n)) :=
      typed hvlt hnew fun q hq => (List.mem_cons.mp hq).symm
    refine ⟨s', h', fun name => ?_, ?_⟩
    · rw [attribute_eq hs' hb' ht' n name]
      by_cases han : a.name = name <;> simp [List.find?_cons, hnew, han, keep hvlt name]
    · rw [firstAttribute_eq hs' ht' n]
      simp

/-- A second `xmlns` on the element `1` of `nestedDeclared`: appended, it is shadowed by
the attribute `3` before it; prepended, it is the one found. -/
theorem attribute_insert_lookup_nestedDeclared :
    Shape nestedDeclared (Function.update (Function.update (fun _ => []) 0 [1]) 1 [2])
      (Function.update (fun _ => []) 1 [3]) ∧
    Bounded nestedDeclared (Function.update (Function.update (fun _ => []) 0 [1]) 1 [2])
      (Function.update (fun _ => []) 1 [3]) ∧
    AttrsTyped nestedDeclared (Function.update (fun _ => []) 1 [3]) ∧ 1 < nestedDeclared.next ∧
    allowInsertAttribute (nestedDeclared.nodeType 1) = true ∧
    ((∃ s', AppendAttribute 1 ⟨xmlnsDefault, "urn:e"⟩ nestedDeclared = some (none, s') ∧
      (∀ name, s'.Attribute 1 name =
        some (((Function.update (fun _ => []) 1 [3] 1).find? fun q =>
            (nestedDeclared.attrOf q).any (·.name = name)).or
          (if (⟨xmlnsDefault, "urn:e"⟩ : Attr).name = name then some nestedDeclared.next
            else none))) ∧
      s'.LastAttribute 1 = some (some nestedDeclared.next)) ∧
    (∃ s', PrependAttribute 1 ⟨xmlnsDefault, "urn:e"⟩ nestedDeclared = some (none, s') ∧
      (∀ name, s'.Attribute 1 name =
        if (⟨xmlnsDefault, "urn:e"⟩ : Attr).name = name then some (some nestedDeclared.next)
        else some ((Function.update (fun _ => []) 1 [3] 1).find? fun q =>
          (nestedDeclared.attrOf q).any (·.name = name))) ∧
      s'.FirstAttribute 1 = some (some nestedDeclared.next))) ∧
    (∃ s', AppendAttribute 1 ⟨xmlnsDefault, "urn:e"⟩ nestedDeclared = some (none, s') ∧
      s'.Attribute 1 xmlnsDefault = some (some 3)) ∧
    ∃ s', PrependAttribute 1 ⟨xmlnsDefault, "urn:e"⟩ nestedDeclared = some (none, s') ∧
      s'.Attribute 1 xmlnsDefault = some (some 4) := by
  obtain ⟨hs, hb, ht, -⟩ := nestedDeclared_spec
  have h := attribute_insert_lookup hs hb ht (show 1 < nestedDeclared.next by decide) rfl
    ⟨xmlnsDefault, "urn:e"⟩
  refine ⟨hs, hb, ht, by decide, rfl, h, ?_, ?_⟩
  · obtain ⟨s₁, h₁, hl₁, -⟩ := h.1
    exact ⟨s₁, h₁, (hl₁ _).trans (by decide)⟩
  · obtain ⟨s₂, h₂, hl₂, -⟩ := h.2
    exact ⟨s₂, h₂, (hl₂ _).trans (by decide)⟩

end Insert

/-! ## The default namespace -/

section Namespace

variable {s : Store} {C A : Nat → List Nat}

/-- The attribute loop at `m` finds a default namespace exactly when `m` declares one. -/
theorem attrScan_xmlns (hs : Shape s C A) (hb : Bounded s C A) (ht : AttrsTyped s A) (m : Nat) :
    (s.attrScan xmlnsDefault s.next (s.firstAttr m)).map (Option.map fun r => r.2.value) =
      some (declaredNS s A m) := by
  rw [attrScan_of_seg xmlnsDefault (hs.attrs m).next
    (length_le_of_nodup (hs.attrs m).nodup (hb.attrs m)) (ht m), Option.map_some', declaredNS,
    ← findSome?_pair_snd (A m) fun q => (s.attrOf q).filter (·.name = xmlnsDefault), Option.map_map]
  rfl

/-- The outer loop over a parent chain that ends: the first node of the chain that declares
a default namespace, with the value it declares. -/
theorem nsLoop_of_parentChain (hs : Shape s C A) (hb : Bounded s C A) (ht : AttrsTyped s A) :
    ∀ {fuel : Nat} {h : Option Nat} {l : List Nat}, s.parentChain fuel h = some l →
      s.nsLoop fuel h =
        some ((l.findSome? fun m => (declaredNS s A m).map (some m, ·)).getD (none, ""))
  | fuel, none, l, hl => by
    obtain rfl : l = [] := by simpa using hl.symm
    cases fuel <;> rfl
  | 0, some _, _, hl => nomatch hl
  | fuel + 1, some p, _, hl => by
    obtain ⟨l', hl', rfl⟩ := Store.parentChain_some hl
    have hscan := attrScan_xmlns hs hb ht p
    rcases hr : s.attrScan xmlnsDefault s.next (s.firstAttr p) with _ | r
    · simp [hr] at hscan
    · rcases r with _ | ⟨q, at_⟩
      · simp only [hr, Option.map_some', Option.map_none', Option.some.injEq] at hscan
        simp [Store.nsLoop, hr, List.findSome?_cons, ← hscan,
          nsLoop_of_parentChain hs hb ht hl']
      · simp only [hr, Option.map_some', Option.some.injEq] at hscan
        simp [Store.nsLoop, hr, List.findSome?_cons, ← hscan]

/-- **`defaultNamespace` finds the nearest declaration.** On a well-formed acyclic store
whose parent links name allocated nodes and whose attribute lists hold attributes,
`defaultNamespace` of an allocated node returns: its loop walks the parent chain, which
holds the node and its ancestors, from the node upward, and answers the first node of it
that declares a default namespace, with the value declared, or nil and `""`. -/
theorem defaultNamespace_nearest (hs : Shape s C A) (hb : Bounded s C A) (ht : AttrsTyped s A)
    (hac : Acyclic s) (hpb : ParentsBelow s) {n : Nat} (hn : n < s.next) :
    ∃ l, s.parentChain s.next (some n) = some l ∧
      (∀ x, x ∈ l ↔ Relation.ReflTransGen (ParentOf s) x n) ∧
      s.defaultNamespace n =
        some ((l.findSome? fun m => (declaredNS s A m).map (some m, ·)).getD (none, "")) := by
  obtain ⟨l, hl⟩ := parentChain_isSome hac hpb hn
  exact ⟨l, hl, fun x => by simp [mem_parentChain hl], nsLoop_of_parentChain hs hb ht hl⟩

/-- From the element `2` of `nestedDeclared` the nearest declaration is on its parent
`1`. -/
theorem defaultNamespace_nearest_nestedDeclared :
    Shape nestedDeclared (Function.update (Function.update (fun _ => []) 0 [1]) 1 [2])
      (Function.update (fun _ => []) 1 [3]) ∧
    Bounded nestedDeclared (Function.update (Function.update (fun _ => []) 0 [1]) 1 [2])
      (Function.update (fun _ => []) 1 [3]) ∧
    AttrsTyped nestedDeclared (Function.update (fun _ => []) 1 [3]) ∧ Acyclic nestedDeclared ∧
    ParentsBelow nestedDeclared ∧ 2 < nestedDeclared.next ∧
    (∃ l, nestedDeclared.parentChain nestedDeclared.next (some 2) = some l ∧
      (∀ x, x ∈ l ↔ Relation.ReflTransGen (ParentOf nestedDeclared) x 2) ∧
      nestedDeclared.defaultNamespace 2 = some ((l.findSome? fun m =>
        (declaredNS nestedDeclared (Function.update (fun _ => []) 1 [3]) m).map
          (some m, ·)).getD (none, ""))) ∧
    nestedDeclared.defaultNamespace 2 = some (some 1, "urn:d") :=
  have h := nestedDeclared_spec
  ⟨h.1, h.2.1, h.2.2.1, h.2.2.2.1, h.2.2.2.2, by decide,
    defaultNamespace_nearest h.1 h.2.1 h.2.2.1 h.2.2.2.1 h.2.2.2.2
      (show 2 < nestedDeclared.next by decide), by decide⟩

end Namespace

end Opr8.Dom
