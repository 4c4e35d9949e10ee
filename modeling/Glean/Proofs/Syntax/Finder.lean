import Glean.Document
import Glean.Proofs.Syntax.Inside

/-!
# Searching for nodes

A search goes through a tree with a callback in hand and looks at nothing inside expressions whose
spans do not cover the target. What it comes to is stated in any lawful monad: the callback is
handed the first node that a walk with the same omissions finds, or nothing is done
(`Finder.visit_eq`, `Document.withNode_eq`).

Where the spans of expressions cover what is inside them, nothing is omitted that could answer, so
the search is the search through the whole tree (`Document.withNode_hands_first`).
-/

namespace Glean

open Syntax

/-- A handle that answers a reference has its span. -/
theorem Handle.span_of_answers {handle : Handle} {target : Reference}
    (answers : handle.answers target = true) : handle.span = target.span := by
  rw [Handle.answers, Bool.and_eq_true] at answers
  exact of_decide_eq_true answers.2

variable {m : Type → Type} [Monad m] {α : Type}

namespace Finder

variable {finder : Finder m α} {target : Reference}

/-- Hands over the node that was found, if there is one. -/
def hand (finder : Finder m α) : Option Handle → m (Finder m α)
  | some handle => finder.found handle
  | none => pure finder

/-- The callback is taken once. -/
theorem hand_of_isDone (done : finder.isDone = true) (first? : Option Handle) :
    finder.hand first? = pure finder := by
  have taken : finder.callback = none := Option.isNone_iff_eq_none.1 done
  cases first? with
  | none => rfl
  | some handle => simp only [hand, found, taken]

variable [LawfulMonad m]

/-- A finder that is still pending hands the node to its callback and is done. -/
theorem found_of_pending {callback : Handle → m α} (pending : finder.callback = some callback)
    (handle : Handle) :
    finder.found handle = (fun result => ⟨none, some result⟩) <$> callback handle := by
  simp [found, pending]

/-- Of two nodes handed over one after the other, the callback gets the first. -/
theorem hand_bind_hand (first? second? : Option Handle) :
    (finder.hand first? >>= fun finder => finder.hand second?) =
      finder.hand (first?.or second?) := by
  cases first? with
  | none => simp [hand]
  | some handle =>
    rw [Option.some_or]
    cases pending : finder.callback with
    | none =>
      have done : finder.isDone = true := Option.isNone_iff_eq_none.2 pending
      rw [hand_of_isDone done, pure_bind, hand_of_isDone done]
    | some callback =>
      rw [hand, found_of_pending pending, bind_map_left, map_eq_pure_bind]
      exact bind_congr fun result => hand_of_isDone rfl second?

omit [LawfulMonad m] in
/-- A node that is not entered is not the target, since its own span does not cover that either. -/
theorem answers_of_not_mayHold {node : Node} (outside : mayHold target node = false)
    {handle : Handle} (held : handle ∈ node.handles) : handle.answers target = false := by
  cases node with
  | expr value =>
    -- A call and a template with a tag have the span of the expression that they are.
    have same : handle.span = value.span := by
      rcases List.mem_cons.1 held with rfl | inner
      · rfl
      · split at inner
        · exact List.mem_singleton.1 inner ▸ rfl
        · exact List.mem_singleton.1 inner ▸ rfl
        · cases inner
    by_contra answers
    have spans := Handle.span_of_answers (eq_true_of_ne_false answers)
    have covers : value.span.covers target.span = true := by
      simp [← spans, same, Span.covers]
    rw [mayHold, covers] at outside
    cases outside
  | _ => cases outside

end Finder

/-- The first of some nodes that a reference names. -/
def Syntax.first? (target : Reference) (nodes : List Node) : Option Handle :=
  (nodes.flatMap Node.handles).find? (·.answers target)

/-- The first of two lists of nodes that a reference names is in the left list, or else in the
right. -/
theorem Syntax.first?_append (target : Reference) (nodes others : List Node) :
    first? target (nodes ++ others) = (first? target nodes).or (first? target others) := by
  rw [first?, List.flatMap_append, List.find?_append]
  rfl

/-- The first of some nodes that a reference names is their first node, or else among the rest. -/
theorem Syntax.first?_cons (target : Reference) (node : Node) (rest : List Node) :
    first? target (node :: rest) =
      (node.handles.find? (·.answers target)).or (first? target rest) := by
  rw [first?, List.flatMap_cons, List.find?_append]
  rfl

namespace Finder

variable [LawfulMonad m] {target : Reference}

/-- A search through some nodes hands over the first, if a search through each does. -/
theorem foldlM_visit_eq {nodes : List Node}
    (each : ∀ node ∈ nodes, ∀ finder : Finder m α,
      visit target finder node = finder.hand (first? target (node.walk (mayHold target))))
    (finder : Finder m α) :
    nodes.foldlM (visit target) finder =
      finder.hand (first? target (nodes.flatMap (Node.walk (mayHold target)))) := by
  induction nodes generalizing finder with
  | nil => rfl
  | cons node rest ih =>
    have later := ih fun node listed => each node (List.mem_cons_of_mem _ listed)
    rw [List.foldlM_cons, each node (List.mem_cons_self ..), List.flatMap_cons, first?_append,
      ← hand_bind_hand]
    exact bind_congr fun finder => later finder

omit [LawfulMonad m] in
/-- A visit of a node leaves it out, hands it over, or visits its children in order. -/
theorem visit_unfold (finder : Finder m α) (node : Node) :
    visit target finder node =
      if (finder.isDone && !node.handles.isEmpty) || !mayHold target node then pure finder
      else (node.handles.find? (·.answers target)).elim
        (node.children.foldlM (visit target) finder) finder.found := by
  rw [visit]
  split
  · rfl
  · cases node.handles.find? (·.answers target) with
    | some handle => rfl
    | none => simp only [Option.elim, List.foldlM_subtype, List.unattach_attach]

/-- A search at and inside a node hands over the first node that a walk with the same omissions
finds. -/
theorem visit_eq (finder : Finder m α) (node : Node) :
    visit target finder node = finder.hand (first? target (node.walk (mayHold target))) := by
  -- The children are smaller, and what they were searched for is what the walk finds in them.
  have inside (finder : Finder m α) : node.children.foldlM (visit target) finder =
      finder.hand (first? target (node.children.flatMap (Node.walk (mayHold target)))) :=
    foldlM_visit_eq (fun part listed finder => visit_eq finder part) finder
  cases done : finder.isDone with
  | true =>
    rw [hand_of_isDone done, visit_unfold]
    split
    · rfl
    · cases node.handles.find? (·.answers target) with
      | some handle => exact hand_of_isDone done (some handle)
      | none => exact (inside finder).trans (hand_of_isDone done _)
  | false =>
    rw [visit_unfold, Node.walk_eq, first?_cons, done, Bool.false_and, Bool.false_or]
    cases holds : mayHold target node with
    | false =>
      have refuses : node.handles.find? (·.answers target) = none :=
        List.find?_eq_none.2 fun handle held answers =>
          Bool.false_ne_true ((answers_of_not_mayHold holds held).symm.trans answers)
      rw [refuses]
      rfl
    | true =>
      cases node.handles.find? (·.answers target) with
      | some handle => rfl
      | none => exact inside finder
termination_by sizeOf node
decreasing_by exact Node.sizeOf_children listed

end Finder

namespace Document

variable [LawfulMonad m]

/-- The callback is handed the first node that a walk finds, and that once. -/
theorem withNode_eq (file : Document) (reference : Reference) (callback : Handle → m α) :
    file.withNode reference callback =
      if reference.file == file.path then
        (first? reference (file.module.walk (Finder.mayHold reference))).mapM callback
      else pure none := by
  unfold withNode
  split
  · rw [Finder.foldlM_visit_eq fun node _ finder => Finder.visit_eq finder node]
    rw [← Module.walk]
    cases first? reference (file.module.walk (Finder.mayHold reference)) with
    | none => simp [Finder.hand]
    | some handle => simp [Finder.hand, Finder.found]
  · rfl

/-- The node that a reference names is the first that a walk finds. -/
theorem find?_eq (file : Document) (reference : Reference) :
    file.find? reference =
      if reference.file == file.path then
        first? reference (file.module.walk (Finder.mayHold reference))
      else none := by
  rw [find?, withNode_eq]
  split
  · cases first? reference (file.module.walk (Finder.mayHold reference)) <;> rfl
  · rfl

end Document

/-! ### Searching everywhere -/

/-- Every node of a module that can be referred to, in the order in which they are visited. -/
def Syntax.Module.handles (module : Module) : List Handle := module.all.flatMap Node.handles

/-- The span of each expression covers those of the nodes inside it. -/
def Syntax.Module.isCovering (module : Module) : Bool :=
  module.all.all fun
    | .expr value => (Node.expr value).all.all fun inner =>
        inner.handles.all fun handle => value.span.covers handle.span
    | _ => true

/-- What stands first goes by what stands first at each place. -/
theorem Syntax.first?_flatMap_congr {target : Reference} {nodes : List Node}
    {one other : Node → List Node}
    (each : ∀ node ∈ nodes, first? target (one node) = first? target (other node)) :
    first? target (nodes.flatMap one) = first? target (nodes.flatMap other) := by
  induction nodes with
  | nil => rfl
  | cons node rest ih =>
    have here := each node (List.mem_cons_self ..)
    have later := ih fun node listed => each node (List.mem_cons_of_mem _ listed)
    rw [List.flatMap_cons, List.flatMap_cons, first?_append, first?_append, here, later]

/-- Where nothing answers inside the nodes that a walk does not enter, the walk finds what stands
first in the whole tree. -/
theorem Syntax.first?_walk {target : Reference} {enter : Node → Bool} (node : Node)
    (omits : ∀ around ∈ node.all, enter around = false → ∀ inner ∈ around.all,
      ∀ handle ∈ inner.handles, handle.answers target = false) :
    first? target (node.walk enter) = first? target node.all := by
  rw [Node.walk_eq, Node.all_eq, first?_cons, first?_cons]
  cases entered : enter node with
  | true =>
    have inside : first? target (node.children.flatMap (Node.walk enter)) =
        first? target (node.children.flatMap Node.all) :=
      first?_flatMap_congr fun part child => first?_walk part fun around listed =>
        omits around (Node.mem_all_of_child child listed)
    rw [if_pos rfl, inside]
  | false =>
    have nothing : first? target (node.children.flatMap Node.all) = none := by
      refine List.find?_eq_none.2 fun handle held answers => ?_
      obtain ⟨inner, inside, own⟩ := List.mem_flatMap.1 held
      have here : inner ∈ node.all := node.all_eq ▸ List.mem_cons_of_mem _ inside
      have refuses := omits node (Node.mem_all_self node) entered inner here handle own
      exact Bool.false_ne_true (refuses.symm.trans answers)
    rw [nothing]
    rfl
termination_by sizeOf node
decreasing_by exact Node.sizeOf_children child

/-- Nothing inside an expression whose span does not cover a reference has its span. -/
theorem Syntax.Module.first?_walk {module : Module} (covering : module.isCovering = true)
    (target : Reference) :
    first? target (module.walk (Finder.mayHold target)) = first? target module.all := by
  refine first?_flatMap_congr fun item listed => Syntax.first?_walk item ?_
  intro around held refused inner inside handle own
  cases around with
  | expr value =>
    have among : .expr value ∈ module.all := List.mem_flatMap.2 ⟨item, listed, held⟩
    have covers : value.span.covers handle.span = true :=
      List.all_eq_true.1 (List.all_eq_true.1 (List.all_eq_true.1 covering _ among) inner inside)
        handle own
    by_contra answers
    have spans := Handle.span_of_answers (eq_true_of_ne_false answers)
    rw [Finder.mayHold, ← spans, covers] at refused
    cases refused
  | _ => cases refused

namespace Document

/-- Where the span of each expression covers those of the nodes inside it, the callback is handed
the first of all nodes that have the kind and the span of the reference, in the order of visits. It
is called once, whatever it does, or not at all when there is no such node. -/
theorem withNode_hands_first (file : Document) (reference : Reference)
    (covering : file.module.isCovering = true) (here : (reference.file == file.path) = true) :
    let first := file.module.handles.find? fun handle =>
      handle.kind = reference.kind ∧ handle.span = reference.span
    (∀ (m : Type → Type) [Monad m] [LawfulMonad m] (α : Type) (callback : Handle → m α),
      file.withNode reference callback = first.mapM callback) ∧
    (∀ (α : Type) (give : Handle → α) (calls : List Handle),
      (file.withNode reference fun handle => do
        modify (· ++ [handle])
        pure (give handle) : StateM (List Handle) (Option α)).run calls =
          (first.map give, calls ++ first.toList)) ∧
    file.find? reference = first := by
  intro first
  have found : first? reference (file.module.walk (Finder.mayHold reference)) = first := by
    rw [Module.first?_walk covering, first?]
    simp only [Handle.answers, first, Bool.decide_and]
    rfl
  have handed : ∀ (m : Type → Type) [Monad m] [LawfulMonad m] (α : Type)
      (callback : Handle → m α), file.withNode reference callback = first.mapM callback := by
    intro m _ _ α callback
    rw [withNode_eq, if_pos here, found]
  refine ⟨handed, fun α give calls => ?_, ?_⟩
  · rw [handed]
    cases first with
    | none =>
      rw [Option.toList_none, List.append_nil]
      rfl
    | some handle => rfl
  · rw [find?_eq, if_pos here, found]

/-- `f(g)` is an expression and a call, both with the same span. -/
theorem withNode_hands_first_call :
    let call : Call := ⟨⟨1, 5⟩, some (.ident ⟨1, 2⟩ ⟨"f", 1⟩), [.single (.ident ⟨3, 4⟩ ⟨"g", 1⟩)]⟩
    let module : Module := ⟨[.group [.expr (.call call.span call.callee call.arguments)]]⟩
    let file := make ⟨"/a.ts"⟩ "f(g);" module
    let reference : Reference := ⟨file.path, ⟨1, 5⟩, .call⟩
    file.module.isCovering = true ∧ (reference.file == file.path) = true ∧
      file.find? reference = some (.call call) ∧
      (file.withNode reference fun handle => do
        modify (· ++ [handle])
        pure handle.kind : StateM (List Handle) (Option NodeKind)).run [] =
          (some .call, [.call call]) := by
  intro call module file reference
  have covering : file.module.isCovering = true := by decide +kernel
  have here : (reference.file == file.path) = true := by decide +kernel
  have first : (file.module.handles.find? fun handle =>
      handle.kind = reference.kind ∧ handle.span = reference.span) = some (.call call) := by
    change module.handles.find? _ = _
    simp [Module.handles, Module.all, Module.walk, Node.walk_eq, module, Node.children, Expr.parts,
      call, Argument.node, Node.handles, reference, Handle.kind, Handle.span, Expr.span]
  obtain ⟨_, calls, found⟩ := withNode_hands_first file reference covering here
  rw [first] at calls found
  exact ⟨covering, here, found, calls NodeKind Handle.kind []⟩

end Document

end Glean
