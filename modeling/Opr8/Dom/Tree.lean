import Opr8.Dom.Shape

/-!
# Opr8 — pointer-free trees and their representation in a store

A `DTree` is what a subtree of the node store means once the pointers are forgotten:
each node's payload, the attributes on its attribute list, and its children in list
order. `RepIn K s C A p t` says that the subtree of the store `s` at `p`, read through
the child lists `C` and attribute lists `A`, is `t`, and that every node it visits
(attributes included) lies in the set `K`. `Rep` is the unrestricted relation.

The set `K` is what makes representations survive later writes: a store change that
keeps payloads and lists on `K` keeps every `RepIn K` (`RepIn.transport`), with no need to
know how the subtree is closed under the child relation. The node store's sibling and
parent links are not read at all; `Shape` is what ties them to `C` and `A`.

Main results:

* `RepIn.transport` — a representation over `K` is kept by any change that agrees on `K`.
* `RepListIn.append`, `RepListIn.concat` — representations of child lists extend with
  the list.
-/

namespace Opr8.Dom

open Xml

/-- A subtree without pointers: payload, attributes, children. -/
inductive DTree where
  | node (v : Value) (attrs : List Attr) (kids : List DTree)
deriving Repr

mutual
/-- Nodes of a tree, attributes counted. -/
def DTree.size : DTree → Nat
  | .node _ attrs kids => 1 + attrs.length + DTree.sizeList kids

/-- Nodes of a forest, attributes counted. -/
def DTree.sizeList : List DTree → Nat
  | [] => 0
  | t :: ts => t.size + DTree.sizeList ts
end

@[simp] theorem DTree.size_node (v : Value) (attrs : List Attr) (kids : List DTree) :
    (DTree.node v attrs kids).size = 1 + attrs.length + DTree.sizeList kids := by
  simp [DTree.size]

@[simp] theorem DTree.sizeList_nil : DTree.sizeList [] = 0 := by simp [DTree.sizeList]

@[simp] theorem DTree.sizeList_cons (t : DTree) (ts : List DTree) :
    DTree.sizeList (t :: ts) = t.size + DTree.sizeList ts := by simp [DTree.sizeList]

@[simp] theorem DTree.sizeList_append (ts us : List DTree) :
    DTree.sizeList (ts ++ us) = DTree.sizeList ts + DTree.sizeList us := by
  induction ts with
  | nil => simp
  | cons t ts ih => simp [ih, Nat.add_assoc]

theorem DTree.size_pos (t : DTree) : 0 < t.size := by
  cases t
  simp only [DTree.size_node]
  omega

theorem DTree.length_le_sizeList : ∀ ts : List DTree, ts.length ≤ DTree.sizeList ts
  | [] => le_rfl
  | t :: ts => by
    have := t.size_pos
    have := DTree.length_le_sizeList ts
    simp only [List.length_cons, DTree.sizeList_cons]
    omega

/-- `it.value.(*attribute).Attr`: the attribute an attribute node holds; the type
assertion panics on any other payload. -/
def Store.attrOf (s : Store) (a : Nat) : Option Attr :=
  match s.value a with
  | some (.attribute at_) => some at_
  | _ => none

mutual
/-- The subtree at `p` is `t`, and visits only nodes in `K`. -/
def RepIn (K : Nat → Prop) (s : Store) (C A : Nat → List Nat) : Nat → DTree → Prop
  | p, .node v attrs kids => K p ∧ s.value p = some v ∧ (∀ a ∈ A p, K a) ∧
      (A p).map s.attrOf = attrs.map some ∧ RepListIn K s C A (C p) kids

/-- The subtrees at the pointers `qs` are the trees `ts`, in order. -/
def RepListIn (K : Nat → Prop) (s : Store) (C A : Nat → List Nat) :
    List Nat → List DTree → Prop
  | [], [] => True
  | q :: qs, t :: ts => RepIn K s C A q t ∧ RepListIn K s C A qs ts
  | _, _ => False
end

/-- The subtree at `p` is `t`. -/
def Rep (s : Store) (C A : Nat → List Nat) : Nat → DTree → Prop := RepIn (fun _ => True) s C A

/-- The subtrees at the pointers `qs` are the trees `ts`. -/
def RepList (s : Store) (C A : Nat → List Nat) : List Nat → List DTree → Prop :=
  RepListIn (fun _ => True) s C A

section RepIn

variable {K : Nat → Prop} {s s' : Store} {C C' A A' : Nat → List Nat}

@[simp] theorem repIn_node {p : Nat} {v : Value} {attrs : List Attr} {kids : List DTree} :
    RepIn K s C A p (.node v attrs kids) ↔ K p ∧ s.value p = some v ∧ (∀ a ∈ A p, K a) ∧
      (A p).map s.attrOf = attrs.map some ∧ RepListIn K s C A (C p) kids := by
  simp [RepIn]

@[simp] theorem repListIn_nil_nil : RepListIn K s C A [] [] := by simp [RepListIn]

@[simp] theorem repListIn_cons_cons {q : Nat} {qs : List Nat} {t : DTree} {ts : List DTree} :
    RepListIn K s C A (q :: qs) (t :: ts) ↔ RepIn K s C A q t ∧ RepListIn K s C A qs ts := by
  simp [RepListIn]

@[simp] theorem repListIn_nil_cons {t : DTree} {ts : List DTree} :
    ¬ RepListIn K s C A [] (t :: ts) := by simp [RepListIn]

@[simp] theorem repListIn_cons_nil {q : Nat} {qs : List Nat} :
    ¬ RepListIn K s C A (q :: qs) [] := by simp [RepListIn]

theorem RepListIn.length_eq : ∀ {qs : List Nat} {ts : List DTree},
    RepListIn K s C A qs ts → qs.length = ts.length
  | [], [], _ => rfl
  | _ :: _, _ :: _, h => congrArg (· + 1) (repListIn_cons_cons.mp h).2.length_eq
  | [], _ :: _, h => absurd h repListIn_nil_cons
  | _ :: _, [], h => absurd h repListIn_cons_nil

theorem RepListIn.append : ∀ {qs : List Nat} {ts : List DTree} {qs' : List Nat} {ts' : List DTree},
    RepListIn K s C A qs ts → RepListIn K s C A qs' ts' → RepListIn K s C A (qs ++ qs') (ts ++ ts')
  | [], [], _, _, _, h' => h'
  | _ :: _, _ :: _, _, _, h, h' =>
    repListIn_cons_cons.mpr ⟨(repListIn_cons_cons.mp h).1, (repListIn_cons_cons.mp h).2.append h'⟩
  | [], _ :: _, _, _, h, _ => absurd h repListIn_nil_cons
  | _ :: _, [], _, _, h, _ => absurd h repListIn_cons_nil

theorem RepListIn.concat {qs : List Nat} {ts : List DTree} {q : Nat} {t : DTree}
    (h : RepListIn K s C A qs ts) (ht : RepIn K s C A q t) :
    RepListIn K s C A (qs ++ [q]) (ts ++ [t]) :=
  h.append (repListIn_cons_cons.mpr ⟨ht, repListIn_nil_nil⟩)

mutual
/-- Weakening the node set. -/
theorem RepIn.mono {K' : Nat → Prop} (hK : ∀ q, K q → K' q) :
    ∀ {p : Nat} {t : DTree}, RepIn K s C A p t → RepIn K' s C A p t
  | _, .node _ _ _, h =>
    let ⟨hp, hv, ha, hm, hl⟩ := repIn_node.mp h
    repIn_node.mpr ⟨hK _ hp, hv, fun a m => hK a (ha a m), hm, RepListIn.mono hK hl⟩

theorem RepListIn.mono {K' : Nat → Prop} (hK : ∀ q, K q → K' q) :
    ∀ {qs : List Nat} {ts : List DTree}, RepListIn K s C A qs ts → RepListIn K' s C A qs ts
  | [], [], _ => repListIn_nil_nil
  | _ :: _, _ :: _, h =>
    repListIn_cons_cons.mpr ⟨RepIn.mono hK (repListIn_cons_cons.mp h).1,
      RepListIn.mono hK (repListIn_cons_cons.mp h).2⟩
  | [], _ :: _, h => absurd h repListIn_nil_cons
  | _ :: _, [], h => absurd h repListIn_cons_nil
end

/-- What a store change must keep on `K` for representations over `K` to survive it. -/
def AgreeOn (K : Nat → Prop) (s s' : Store) (C C' A A' : Nat → List Nat) : Prop :=
  ∀ q, K q → s'.value q = s.value q ∧ C' q = C q ∧ A' q = A q

mutual
/-- **Transport.** A representation over `K` is kept by a change that agrees on `K`. -/
theorem RepIn.transport (hag : AgreeOn K s s' C C' A A') :
    ∀ {p : Nat} {t : DTree}, RepIn K s C A p t → RepIn K s' C' A' p t
  | p, .node _ _ _, h => by
    obtain ⟨hp, hv, ha, hm, hl⟩ := repIn_node.mp h
    obtain ⟨hvp, hC, hA⟩ := hag p hp
    have hattr : ∀ a ∈ A p, s'.attrOf a = s.attrOf a := fun a m => by
      simp only [Store.attrOf, (hag a (ha a m)).1]
    refine repIn_node.mpr ⟨hp, hvp.trans hv, hA ▸ ha, ?_, hC ▸ RepListIn.transport hag hl⟩
    rw [hA, ← hm]
    exact List.map_congr_left hattr

theorem RepListIn.transport (hag : AgreeOn K s s' C C' A A') :
    ∀ {qs : List Nat} {ts : List DTree}, RepListIn K s C A qs ts → RepListIn K s' C' A' qs ts
  | [], [], _ => repListIn_nil_nil
  | _ :: _, _ :: _, h =>
    repListIn_cons_cons.mpr ⟨RepIn.transport hag (repListIn_cons_cons.mp h).1,
      RepListIn.transport hag (repListIn_cons_cons.mp h).2⟩
  | [], _ :: _, h => absurd h repListIn_nil_cons
  | _ :: _, [], h => absurd h repListIn_cons_nil
end

end RepIn

end Opr8.Dom
