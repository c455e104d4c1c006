import Opr8.Dom.Create

/-!
# Opr8 — the encoder walk `treeOrder`

`treeOrder` serializes a tree without recursion: it keeps a stack of pending closures,
`encodeNodeValueStart n` and `encodeNodeValueEnd n`. Running a start closure encodes the
node's token and returns the node; the walk then pushes the node's end closure and the
start closures of its children, tail first, found from the head's circular back link and
walked backwards until the node whose `nextSib` is nil, the tail, comes round again. The
closures read the store only when they run; the store does not change during the walk, so
the model keeps the stack as a list of `Work` items, top first.

The walk is modelled with a step budget (`fuel`) shared by its three loops; running out is
`none`, as is a nil dereference or a failed type assertion. `ser` is the recursive
reference: the token of a node, then its children's serializations in list order, then its
end token. The encoder is any state machine (`Encoder`), and `play` feeds it a list of
steps, stopping at the first error.

Main results:

* `treeOrder_eq_ser` — on a well-formed store, for every finite tree under the marshaled
  node and enough fuel, `treeOrder` passes the encoder exactly the tokens of `ser`, and
  returns the first error the encoder or an unexpected node kind raises.
* `treeOrder_explicitNS_mismatch` — with `WithExplicitNS`, an element whose namespace is
  its parent's gets a start tag with the namespace and an end tag without it: the option
  sets a bit that only the start tag reads.
-/

namespace Opr8.Dom

open Xml Store

/-! ## The marshaler -/

/-- `Marshaler`: the node to encode and the options. -/
structure Marshaler where
  node : Nat
  opts : Bitflag
  emitExplicitNS : Bool

/-- `marshalExplicitNS`, the first option bit. -/
def marshalExplicitNS : Bitflag := ⟨1⟩

/-- `NewMarshaler(node, opts...)`: no option set, then each option applied in order. -/
def NewMarshaler (node : Nat) (opts : List (Marshaler → Marshaler)) : Marshaler :=
  opts.foldl (fun e opt => opt e) ⟨node, ⟨0⟩, false⟩

/-- `WithExplicitNS()`: it sets the option bit, and leaves `emitExplicitNS` as it is. -/
def WithExplicitNS (e : Marshaler) : Marshaler := { e with opts := e.opts.Add marshalExplicitNS }

/-- `xmlnsDefault`, the attribute the marshaler never writes. -/
def xmlnsDefault : Name := ⟨"", "xmlns"⟩

/-- `xml.Encoder` as `treeOrder` uses it: `EncodeToken` accepts a token, moving to a new
state, or fails. -/
structure Encoder (σ : Type) where
  EncodeToken : σ → Token → Except Error σ

/-- The error of `encodeNodeValueStart` on a node of a kind it does not encode. -/
def unexpectedNodeType (nt : NodeType) : Error :=
  .new ("MarshalXML called on unexpected node type " ++ nt.toString)

/-- The name an element's tag carries: its own, without the namespace when that is its
parent's and `explicit` is off. `encodeNodeValueStart` computes it reading the option bit,
`endElementForNode` reading `explicitNS`. -/
def elidedName (s : Store) (n : Nat) (explicit : Bool) : Name :=
  let name := s.xmlName n
  match s.parent n with
  | some p => if !explicit && (s.xmlName p).space == name.space then { name with space := "" }
    else name
  | none => name

/-- `endElementForNode`. -/
def endElementForNode (s : Store) (n : Nat) (explicitNS : Bool) : Token :=
  .endElement (elidedName s n explicitNS)

/-- The attribute loop of `encodeNodeValueStart`: from `it` along `nextSib`, every
attribute not named `xmlnsDefault`. -/
def collectAttrs (s : Store) : Nat → Option Nat → Option (List Attr)
  | _, none => some []
  | 0, some _ => none
  | fuel + 1, some it => do
    let this ← s.attrOf it
    let rest ← collectAttrs s fuel (s.nextSib it)
    pure (if this.name ≠ xmlnsDefault then this :: rest else rest)

/-- The token `encodeNodeValueStart` encodes for `n`: none for a document or fragment,
an error for a kind it does not know. The switch on `NodeType` is a switch on the payload,
which determines it. -/
def startToken (m : Marshaler) (s : Store) (fuel n : Nat) : Option (Except Error (Option Token)) :=
  match s.value n with
  | some (.element ..) => do
    let attrs ← collectAttrs s fuel (s.firstAttr n)
    pure (.ok (some (.startElement ⟨elidedName s n (m.opts.Has marshalExplicitNS), attrs⟩)))
  | some (.comment c) => some (.ok (some (.comment c)))
  | some (.text t) => some (.ok (some (.charData t)))
  | some (.declaration pi) => some (.ok (some (.procInst pi)))
  | some (.procinst pi) => some (.ok (some (.procInst pi)))
  | some .document => some (.ok none)
  | some .documentFragment => some (.ok none)
  | _ => some (.error (unexpectedNodeType (s.nodeType n)))

/-- A closure on the stack of `treeOrder`. -/
inductive Work where
  | valueStart (n : Nat)
  | valueEnd (n : Nat)
deriving DecidableEq, Repr

variable {σ : Type}

/-- Running `encodeNodeValueStart(e, enc, n)`: the node comes back unless encoding failed. -/
def encodeNodeValueStart (m : Marshaler) (enc : Encoder σ) (s : Store) (fuel n : Nat) (st : σ) :
    Option (Except Error (Option Nat × σ)) :=
  (startToken m s fuel n).map fun
    | .error e => .error e
    | .ok none => .ok (some n, st)
    | .ok (some t) => (enc.EncodeToken st t).map (some n, ·)

/-- Running `encodeNodeValueEnd(e, enc, n)`: an end tag for an element, nothing else. -/
def encodeNodeValueEnd (m : Marshaler) (enc : Encoder σ) (s : Store) (n : Nat) (st : σ) :
    Except Error (Option Nat × σ) :=
  if s.nodeType n = .element then
    (enc.EncodeToken st (endElementForNode s n m.emitExplicitNS)).map (none, ·)
  else .ok (none, st)

/-- Running the closure on top of the stack. -/
def runWork (m : Marshaler) (enc : Encoder σ) (s : Store) (fuel : Nat) :
    Work → σ → Option (Except Error (Option Nat × σ))
  | .valueStart n, st => encodeNodeValueStart m enc s fuel n st
  | .valueEnd n, st => some (encodeNodeValueEnd m enc s n st)

/-- The push loop `for it := ...; it.nextSib != nil; it = it.prevSib`. -/
def pushStarts (s : Store) : Nat → Nat → List Work → Option (List Work)
  | 0, _, _ => none
  | fuel + 1, it, stack =>
    match s.nextSib it with
    | none => some stack
    | some _ =>
      match s.prevSib it with
      | none => none
      | some prev => pushStarts s fuel prev (.valueStart it :: stack)

/-- The children of `n` onto the stack: the tail `n.firstChild.prevSib` first, then the
loop from the node before it. -/
def pushChildren (s : Store) (fuel n : Nat) (stack : List Work) : Option (List Work) :=
  match s.firstChild n with
  | none => some stack
  | some head => do
    let tail ← s.prevSib head
    let it ← s.prevSib tail
    pushStarts s fuel it (.valueStart tail :: stack)

/-- The loop of `treeOrder`. -/
def treeOrderLoop (m : Marshaler) (enc : Encoder σ) (s : Store) :
    Nat → List Work → σ → Option (Except Error σ)
  | 0, _, _ => none
  | _ + 1, [], st => some (.ok st)
  | fuel + 1, w :: stack, st =>
    match runWork m enc s fuel w st with
    | none => none
    | some (.error e) => some (.error e)
    | some (.ok (none, st)) => treeOrderLoop m enc s fuel stack st
    | some (.ok (some n, st)) =>
      match pushChildren s fuel n (.valueEnd n :: stack) with
      | none => none
      | some stack => treeOrderLoop m enc s fuel stack st

/-- `treeOrder(e, enc)`, from the encoder state `st`. -/
def treeOrder (fuel : Nat) (m : Marshaler) (enc : Encoder σ) (s : Store) (st : σ) :
    Option (Except Error σ) :=
  treeOrderLoop m enc s fuel [.valueStart m.node] st

/-! ## The recursive reference -/

/-- The tag name of an element named `name` whose parent's namespace is `ps` (`none` for
no parent). -/
def elide (explicit : Bool) (ps : Option String) (name : Name) : Name :=
  match ps with
  | some sp => if !explicit && sp == name.space then { name with space := "" } else name
  | none => name

/-- What the walk does at one point: hand the encoder a token, or stop with an error. -/
inductive Step where
  | emit (t : Token)
  | fail (e : Error)
deriving Repr

/-- The start of a node with payload `v` and attributes `attrs`, under a parent with
namespace `ps`. -/
def startStep (m : Marshaler) (ps : Option String) : Value → List Attr → Except Error (Option Token)
  | .element name _, attrs => .ok (some (.startElement
      ⟨elide (m.opts.Has marshalExplicitNS) ps name, attrs.filter fun a => a.name ≠ xmlnsDefault⟩))
  | .comment c, _ => .ok (some (.comment c))
  | .text t, _ => .ok (some (.charData t))
  | .declaration pi, _ => .ok (some (.procInst pi))
  | .procinst pi, _ => .ok (some (.procInst pi))
  | .document, _ => .ok none
  | .documentFragment, _ => .ok none
  | v, _ => .error (unexpectedNodeType v.nodeType)

/-- A start as steps. -/
def stepsOf : Except Error (Option Token) → List Step
  | .error e => [.fail e]
  | .ok none => []
  | .ok (some t) => [.emit t]

/-- The end of a node: an end tag for an element. -/
def endSteps (m : Marshaler) (ps : Option String) : Value → List Step
  | .element name _ => [.emit (.endElement (elide m.emitExplicitNS ps name))]
  | _ => []

mutual
/-- Document order: the node, its children in list order, its end. -/
def ser (m : Marshaler) (ps : Option String) : DTree → List Step
  | .node v attrs kids =>
    stepsOf (startStep m ps v attrs) ++ serList m (some v.xmlName.space) kids ++ endSteps m ps v

/-- Document order over a forest. -/
def serList (m : Marshaler) (ps : Option String) : List DTree → List Step
  | [] => []
  | t :: ts => ser m ps t ++ serList m ps ts
end

@[simp] theorem ser_node (m : Marshaler) (ps : Option String) (v : Value) (attrs : List Attr)
    (kids : List DTree) : ser m ps (.node v attrs kids) =
      stepsOf (startStep m ps v attrs) ++ serList m (some v.xmlName.space) kids ++
        endSteps m ps v := by
  simp [ser]

@[simp] theorem serList_nil (m : Marshaler) (ps : Option String) : serList m ps [] = [] := by
  simp [serList]

@[simp] theorem serList_cons (m : Marshaler) (ps : Option String) (t : DTree) (ts : List DTree) :
    serList m ps (t :: ts) = ser m ps t ++ serList m ps ts := by
  simp [serList]

/-- Feeding the encoder a list of steps, up to the first error. -/
def play (enc : Encoder σ) : σ → List Step → Except Error σ
  | st, [] => .ok st
  | st, .emit t :: rest =>
    match enc.EncodeToken st t with
    | .ok st' => play enc st' rest
    | .error e => .error e
  | _, .fail e :: _ => .error e

theorem play_append (enc : Encoder σ) : ∀ (st : σ) (xs ys : List Step),
    play enc st (xs ++ ys) = (play enc st xs).bind fun st' => play enc st' ys
  | _, [], _ => rfl
  | st, .emit t :: xs, ys => by
    simp only [List.cons_append, play]
    cases enc.EncodeToken st t with
    | ok st' => exact play_append enc st' xs ys
    | error e => rfl
  | _, .fail _ :: _, _ => rfl

/-- The namespace of `n`'s parent, as `encodeNodeValueStart` reads it. -/
def parentSpace (s : Store) (n : Nat) : Option String :=
  (s.parent n).map fun p => (s.xmlName p).space

theorem elidedName_eq (s : Store) (n : Nat) (explicit : Bool) :
    elidedName s n explicit = elide explicit (parentSpace s n) (s.xmlName n) := by
  unfold elidedName elide parentSpace
  cases s.parent n <;> rfl

/-! ## The walk is the recursion -/

section Walk

variable {s : Store} {C A : Nat → List Nat}

theorem collectAttrs_eq : ∀ {l : List Nat} {attrs : List Attr} {fuel : Nat} {hd : Option Nat},
    Seg s.nextSib hd l none → l.map s.attrOf = attrs.map some → l.length < fuel →
    collectAttrs s fuel hd = some (attrs.filter fun a => a.name ≠ xmlnsDefault)
  | [], attrs, fuel, _, hseg, hmap, _ => by
    rw [List.map_nil, eq_comm, List.map_eq_nil_iff] at hmap
    subst hmap
    rw [show _ = none from hseg]
    cases fuel <;> rfl
  | a :: l, attrs, fuel + 1, _, ⟨rfl, hseg⟩, hmap, hlen => by
    obtain ⟨at_, ats, rfl⟩ : ∃ at_ ats, attrs = at_ :: ats := by
      cases attrs with
      | nil => simp at hmap
      | cons at_ ats => exact ⟨at_, ats, rfl⟩
    simp only [List.map_cons, List.cons.injEq] at hmap
    have hrec : collectAttrs s fuel (s.nextSib a) =
        some (ats.filter fun a => a.name ≠ xmlnsDefault) :=
      collectAttrs_eq hseg hmap.2 (by simp at hlen; omega)
    simp only [collectAttrs, hmap.1, hrec, Option.bind_eq_bind, Option.some_bind,
      List.filter_cons, decide_eq_true_eq]
    split <;> rfl

/-- The push loop leaves the members from the head up to `x`, then those after `x`, on
the stack, head on top. -/
theorem pushStarts_eq {hd : Option Nat} {S : List Work} :
    ∀ {pre : List Nat} {x : Nat} {suf : List Nat} {fuel : Nat},
    SibList s hd (pre ++ x :: suf) → suf ≠ [] → pre.length + 1 < fuel →
    pushStarts s fuel x (suf.map .valueStart ++ S) =
      some ((pre ++ x :: suf).map .valueStart ++ S) := by
  intro pre
  induction pre using List.reverseRecOn with
  | nil =>
    -- `x` is the head: it steps back to the tail, whose `nextSib` stops the loop
    intro x suf fuel hl hsuf hf
    obtain ⟨fuel, rfl⟩ : ∃ f, fuel = f + 2 := ⟨fuel - 2, by simp at hf; omega⟩
    obtain ⟨suf', tl, rfl⟩ := (List.eq_nil_or_concat suf).resolve_left hsuf
    simp only [List.concat_eq_append] at hl ⊢
    have hnx : s.nextSib x = (suf' ++ [tl]).head? := hl.next_eq
    have hpx : s.prevSib x = some tl :=
      (hl.prev_head rfl).trans (List.getLast?_concat (x :: suf'))
    have hl' : SibList s hd ((x :: suf') ++ tl :: []) := by simpa using hl
    have hnt : s.nextSib tl = none := hl'.next_eq
    obtain ⟨y, hy⟩ : ∃ y, (suf' ++ [tl]).head? = some y := by
      cases suf' <;> exact ⟨_, rfl⟩
    simp [pushStarts, hnx, hy, hpx, hnt]
  | append_singleton pre y ih =>
    -- `x` has a predecessor `y`: push `x` and continue from `y`
    intro x suf fuel hl hsuf hf
    obtain ⟨fuel, rfl⟩ : ∃ f, fuel = f + 1 := ⟨fuel - 1, by simp at hf; omega⟩
    have hl' : SibList s hd (pre ++ y :: x :: suf) := by simpa using hl
    have hl'' : SibList s hd ((pre ++ [y]) ++ x :: suf) := hl
    have hnx : s.nextSib x = suf.head? := hl''.next_eq
    obtain ⟨z, hz⟩ : ∃ z, suf.head? = some z := by
      cases suf with
      | nil => exact absurd rfl hsuf
      | cons z _ => exact ⟨z, rfl⟩
    have hpx : s.prevSib x = some y := hl'.prev_eq
    have hrec : pushStarts s fuel y ((x :: suf).map .valueStart ++ S) =
        some ((pre ++ y :: x :: suf).map .valueStart ++ S) :=
      ih hl' (List.cons_ne_nil _ _) (by simp at hf; omega)
    simp only [pushStarts, hnx, hz, hpx]
    simpa using hrec

theorem pushChildren_eq {n fuel : Nat} {l : List Nat} {S : List Work}
    (hl : SibList s (s.firstChild n) l) (hf : l.length < fuel) :
    pushChildren s fuel n S = some (l.map .valueStart ++ S) := by
  rcases List.eq_nil_or_concat l with rfl | ⟨l', tl, rfl⟩
  · have hfc : s.firstChild n = none := hl.head_eq
    simp [pushChildren, hfc]
  simp only [List.concat_eq_append] at hl hf ⊢
  obtain ⟨h, hh⟩ : ∃ h, (l' ++ [tl]).head? = some h := by
    cases l' <;> exact ⟨_, rfl⟩
  have hfc : s.firstChild n = some h := hl.head_eq.trans hh
  have hph : s.prevSib h = some tl := (hl.prev_head hh).trans (List.getLast?_concat _)
  rcases List.eq_nil_or_concat l' with rfl | ⟨pre, y, rfl⟩
  · -- one child: it is its own tail, and the loop stops at once
    obtain rfl : tl = h := by simpa using hh
    have hnt : s.nextSib tl = none := hl.next_eq
    obtain ⟨fuel, rfl⟩ : ∃ f, fuel = f + 1 := ⟨fuel - 1, by simp at hf; omega⟩
    simp [pushChildren, hfc, hph, pushStarts, hnt]
  · -- the loop starts from the node before the tail
    simp only [List.concat_eq_append] at hl hf ⊢
    have hl' : SibList s (s.firstChild n) (pre ++ y :: tl :: []) := by simpa using hl
    have hpt : s.prevSib tl = some y := hl'.prev_eq
    have hrec : pushStarts s fuel y ([tl].map .valueStart ++ S) =
        some ((pre ++ y :: [tl]).map .valueStart ++ S) :=
      pushStarts_eq hl' (List.cons_ne_nil _ _) (by simp at hf; omega)
    simp only [pushChildren, hfc, hph, hpt, Option.bind_eq_bind, Option.some_bind]
    simpa using hrec

theorem startToken_eq (m : Marshaler) (hs : Shape s C A) {n fuel : Nat} {v : Value}
    {attrs : List Attr} (hv : s.value n = some v) (ha : (A n).map s.attrOf = attrs.map some)
    (hf : attrs.length < fuel) :
    startToken m s fuel n = some (startStep m (parentSpace s n) v attrs) := by
  have hx : s.xmlName n = v.xmlName := by simp [Store.xmlName, hv]
  rcases v with ⟨name, pfx⟩ | _ | _ | _ | _ | _ | _ | _
  · have hlen : (A n).length < fuel := by
      have := congrArg List.length ha
      simp only [List.length_map] at this
      omega
    have hc := collectAttrs_eq (hs.attrs n).next ha hlen
    simp [startToken, hv, hc, startStep, elidedName_eq, hx, Value.xmlName]
  all_goals simp [startToken, hv, startStep, Store.nodeType, Value.nodeType]

/-- What the stack still owes the encoder: the serialization of the subtree of every
pending start, and the end of every pending end, top first; the last index bounds the
iterations the walk needs. -/
inductive Owes (m : Marshaler) (s : Store) (C A : Nat → List Nat) :
    List Work → List Step → Nat → Prop
  | nil : Owes m s C A [] [] 0
  | start {n : Nat} {t : DTree} {rest : List Work} {r : List Step} {k : Nat} :
      Rep s C A n t → Owes m s C A rest r k →
      Owes m s C A (.valueStart n :: rest) (ser m (parentSpace s n) t ++ r) (k + 2 * t.size)
  | finish {n : Nat} {v : Value} {rest : List Work} {r : List Step} {k : Nat} :
      s.value n = some v → Owes m s C A rest r k →
      Owes m s C A (.valueEnd n :: rest) (endSteps m (parentSpace s n) v ++ r) (k + 1)

/-- The starts of a child list owe the serialization of the children. -/
theorem Owes.starts {m : Marshaler} {ps : Option String} {rest : List Work} {r : List Step}
    {k : Nat} (ho : Owes m s C A rest r k) : ∀ {l : List Nat} {kids : List DTree},
    RepListIn (fun _ => True) s C A l kids → (∀ c ∈ l, parentSpace s c = ps) →
    Owes m s C A (l.map .valueStart ++ rest) (serList m ps kids ++ r)
      (k + 2 * DTree.sizeList kids)
  | [], [], _, _ => by simpa using ho
  | c :: l, t :: ts, h, hps => by
    obtain ⟨hc, hl⟩ := repListIn_cons_cons.mp h
    have := Owes.start hc
      (Owes.starts ho hl fun c' hc' => hps c' (List.mem_cons_of_mem _ hc'))
    rw [hps c (List.mem_cons_self _ _)] at this
    simpa [Nat.mul_add, Nat.add_assoc, Nat.add_comm, Nat.add_left_comm] using this
  | [], _ :: _, h, _ => absurd h repListIn_nil_cons
  | _ :: _, [], h, _ => absurd h repListIn_cons_nil

/-- **The loop pays what the stack owes.** With enough fuel, the loop feeds the encoder
exactly the steps the stack owes, and stops at the first error. -/
theorem treeOrderLoop_eq (m : Marshaler) (enc : Encoder σ) (hs : Shape s C A) {fuel : Nat} :
    ∀ {stack : List Work} {steps : List Step} {k : Nat} (st : σ),
    Owes m s C A stack steps k → k < fuel →
    treeOrderLoop m enc s fuel stack st = some (play enc st steps) := by
  induction fuel with
  | zero => exact fun _ _ hk => absurd hk (Nat.not_lt_zero _)
  | succ fuel ih =>
    intro stack steps k st ho hk
    cases ho with
    | nil => rfl
    | @finish n v rest r k hv ho =>
      -- an end closure: an end tag for an element, nothing for the other kinds
      have hrest : ∀ st', treeOrderLoop m enc s fuel rest st' = some (play enc st' r) :=
        fun st' => ih st' ho (by omega)
      rcases v with ⟨name, pfx⟩ | _ | _ | _ | _ | _ | _ | _
      · have hnt : s.nodeType n = .element := by simp [Store.nodeType, hv, Value.nodeType]
        have hend : endElementForNode s n m.emitExplicitNS =
            .endElement (elide m.emitExplicitNS (parentSpace s n) name) := by
          simp [endElementForNode, elidedName_eq, Store.xmlName, hv, Value.xmlName]
        rcases henc : enc.EncodeToken st (.endElement (elide m.emitExplicitNS (parentSpace s n)
          name)) with e | st'
        · simp [treeOrderLoop, runWork, encodeNodeValueEnd, hnt, hend, henc, endSteps, play,
            Except.map]
        · simp [treeOrderLoop, runWork, encodeNodeValueEnd, hnt, hend, henc, endSteps, play,
            Except.map, hrest st']
      all_goals
        have hnt : s.nodeType n ≠ .element := by simp [Store.nodeType, hv, Value.nodeType]
        simp [treeOrderLoop, runWork, encodeNodeValueEnd, hnt, endSteps, hrest st]
    | @start n t rest r k ht ho =>
      -- a start closure: the node's token, then its children and its end on the stack
      obtain ⟨v, attrs, kids⟩ := t
      obtain ⟨-, hv, -, ha, hkids⟩ := repIn_node.mp ht
      simp only [DTree.size_node] at hk
      have hlen : (C n).length ≤ DTree.sizeList kids :=
        hkids.length_eq ▸ DTree.length_le_sizeList kids
      have htok : startToken m s fuel n = some (startStep m (parentSpace s n) v attrs) :=
        startToken_eq m hs hv ha (by omega)
      have hpush : pushChildren s fuel n (.valueEnd n :: rest) =
          some ((C n).map .valueStart ++ .valueEnd n :: rest) :=
        pushChildren_eq (hs.kids n) (by omega)
      have hps : ∀ c ∈ C n, parentSpace s c = some v.xmlName.space := fun c hc => by
        simp [parentSpace, hs.parent n c hc, Store.xmlName, hv]
      have hcont : ∀ st', treeOrderLoop m enc s fuel ((C n).map .valueStart ++ .valueEnd n :: rest)
          st' = some (play enc st' (serList m (some v.xmlName.space) kids ++
            (endSteps m (parentSpace s n) v ++ r))) :=
        fun st' => ih st' ((Owes.finish hv ho).starts hkids hps) (by omega)
      rcases hstart : startStep m (parentSpace s n) v attrs with e | _ | tok
      · simp [treeOrderLoop, runWork, encodeNodeValueStart, htok, hstart, stepsOf, play]
      · simpa [treeOrderLoop, runWork, encodeNodeValueStart, htok, hstart, stepsOf, hpush]
          using hcont st
      · rcases henc : enc.EncodeToken st tok with e | st'
        · simp [treeOrderLoop, runWork, encodeNodeValueStart, htok, hstart, stepsOf, henc, play,
            Except.map]
        · simpa [treeOrderLoop, runWork, encodeNodeValueStart, htok, hstart, stepsOf, henc, play,
            Except.map, hpush] using hcont st'

end Walk

/-- **The stack walk is document order.** On a well-formed store, when the subtree under
the marshaled node is the finite tree `t`, `treeOrder` with enough fuel feeds the encoder
exactly the steps of `ser t`, and returns the first error of the encoder or of an
unexpected node kind. -/
theorem treeOrder_eq_ser (m : Marshaler) (enc : Encoder σ) {s : Store} {C A : Nat → List Nat}
    (hs : Shape s C A) {t : DTree} (ht : Rep s C A m.node t) (st : σ) {fuel : Nat}
    (hf : 2 * t.size < fuel) :
    treeOrder fuel m enc s st = some (play enc st (ser m (parentSpace s m.node) t)) := by
  have h : treeOrderLoop m enc s fuel [.valueStart m.node] st =
      some (play enc st (ser m (parentSpace s m.node) t ++ [])) :=
    treeOrderLoop_eq m enc hs st (Owes.start ht Owes.nil) (by omega)
  simpa [treeOrder] using h


/-- The encoder that accepts every token and records it. -/
def recorder : Encoder (List Token) := ⟨fun st t => .ok (st ++ [t])⟩

/-- The walk of `docTwoChildren`, a Document with the elements `a` and `b` as children: the
loop pushes `b` before it descends into `a`. -/
theorem treeOrder_eq_ser_docTwoChildren :
    Shape docTwoChildren (Function.update (fun _ => []) 0 [1, 2]) (fun _ => []) ∧
    Rep docTwoChildren (Function.update (fun _ => []) 0 [1, 2]) (fun _ => []) 0
      (.node .document [] [.node (.element ⟨"", "a"⟩ "") [] [], .node (.element ⟨"", "b"⟩ "") [] []]) ∧
    2 * (DTree.node .document []
      [.node (.element ⟨"", "a"⟩ "") [] [], .node (.element ⟨"", "b"⟩ "") [] []]).size < 7 ∧
    treeOrder 7 (NewMarshaler 0 []) recorder docTwoChildren [] =
      some (play recorder [] (ser (NewMarshaler 0 []) (parentSpace docTwoChildren 0)
        (.node .document [] [.node (.element ⟨"", "a"⟩ "") [] [],
          .node (.element ⟨"", "b"⟩ "") [] []]))) ∧
    treeOrder 7 (NewMarshaler 0 []) recorder docTwoChildren [] =
      some (.ok [.startElement ⟨⟨"", "a"⟩, []⟩, .endElement ⟨"", "a"⟩,
        .startElement ⟨⟨"", "b"⟩, []⟩, .endElement ⟨"", "b"⟩]) := by
  have ht : Rep docTwoChildren (Function.update (fun _ => []) 0 [1, 2]) (fun _ => []) 0
      (.node .document [] [.node (.element ⟨"", "a"⟩ "") [] [],
        .node (.element ⟨"", "b"⟩ "") [] []]) :=
    repIn_node.mpr ⟨trivial, rfl, by simp, rfl, repListIn_cons_cons.mpr
      ⟨repIn_node.mpr ⟨trivial, rfl, by simp, rfl, by simp⟩, repListIn_cons_cons.mpr
        ⟨repIn_node.mpr ⟨trivial, rfl, by simp, rfl, by simp⟩, repListIn_nil_nil⟩⟩⟩
  have h := treeOrder_eq_ser (NewMarshaler 0 []) recorder docTwoChildren_shape ht []
    (show _ < 7 by decide)
  exact ⟨docTwoChildren_shape, ht, by decide, h, h.trans rfl⟩

/-- A document holding `a` in the namespace `urn:x`, with a child `b` in the same
namespace, built by two `AppendChild` calls. -/
def sameSpaceDoc : Option Store := do
  let s := ((Store.empty.push .document).push (.element ⟨"urn:x", "a"⟩ "")).push
    (.element ⟨"urn:x", "b"⟩ "")
  let (_, s) ← AppendChild 0 1 s
  let (_, s) ← AppendChild 1 2 s
  pure s

/-- **`WithExplicitNS` unbalances the tags.** Marshaling `sameSpaceDoc` with
`WithExplicitNS` gives `b` a start tag in `urn:x` and an end tag in no namespace: the
start tag reads the option bit, the end tag reads `emitExplicitNS`, which no option
sets. -/
theorem treeOrder_explicitNS_mismatch :
    sameSpaceDoc.bind (fun s => treeOrder 10 (NewMarshaler 0 [WithExplicitNS]) recorder s []) =
      some (.ok [.startElement ⟨⟨"urn:x", "a"⟩, []⟩, .startElement ⟨⟨"urn:x", "b"⟩, []⟩,
        .endElement ⟨"", "b"⟩, .endElement ⟨"urn:x", "a"⟩]) ∧
    ¬ WellBracketed [.startElement ⟨⟨"urn:x", "a"⟩, []⟩, .startElement ⟨⟨"urn:x", "b"⟩, []⟩,
        .endElement ⟨"", "b"⟩, .endElement ⟨"urn:x", "a"⟩] :=
  ⟨rfl, by decide⟩

end Opr8.Dom
