import DiceNotation.Evaluation.Evaluate

/-! # Steps on two trees at once

Two steps, each with a node of its own in focus and with the same record before, mirror each other
if they come to the same fault or to the same result, and leave the same record.  `Mirrors x y step
step' post` says this of `step` on `x` and `step'` on `y`; `post` says how the two nodes that are
left are related.

There is one rule for each way to compose steps.  Most steps only speak to the record: they are the
same on both sides and leave the nodes alone (`Unmoved`).  Once the two nodes are equal, a step
mirrors itself (`refl`).

* `Mirrors.bind`           a step after another one
* `Mirrors.onChild`        a step with a child in focus
* `Mirrors.foldChildren`   a step with each child, where the children are related one by one -/

namespace DiceNotation

variable {α β : Type}

/-! ## Lists of nodes that are related one by one -/

/-- The lists are equally long, and nodes at the same place are related as that place says. -/
def Aligned (R : Nat → Node → Node → Prop) (xs ys : List Node) : Prop :=
  xs.length = ys.length ∧ ∀ (i : Nat) (x y : Node), xs[i]? = some x → ys[i]? = some y → R i x y

namespace Aligned

variable {R S : Nat → Node → Node → Prop} {x y : Node} {xs xs' ys ys' : List Node}

/-- Two empty lists are aligned. -/
theorem nil : Aligned R [] [] := ⟨rfl, nofun⟩

/-- Lists that are not empty are aligned when their heads are related and their tails are aligned,
    with the places of the tails shifted by one. -/
theorem cons_iff : Aligned R (x :: xs) (y :: ys) ↔
    R 0 x y ∧ Aligned (fun i => R (i + 1)) xs ys := by
  constructor
  · rintro ⟨length, related⟩
    refine ⟨related 0 x y rfl rfl, Nat.succ.inj length, fun i a b ha hb => ?_⟩
    exact related (i + 1) a b ha hb
  · rintro ⟨first, length, related⟩
    refine ⟨congrArg (· + 1) length, fun i a b ha hb => ?_⟩
    -- The first pair is given, and any later one stands one place further on.
    cases i with
    | zero =>
      cases ha
      cases hb
      exact first
    | succ i => exact related i a b ha hb

/-- A list that is aligned with one that has a head has a head too. -/
theorem exists_of_cons (h : Aligned R (x :: xs) ys) :
    ∃ y ys', ys = y :: ys' ∧ R 0 x y ∧ Aligned (fun i => R (i + 1)) xs ys' := by
  cases ys with
  | nil => exact absurd h.1 (Nat.succ_ne_zero _)
  | cons y ys => exact ⟨y, ys, rfl, cons_iff.mp h⟩

/-- Only the empty list is aligned with the empty list. -/
theorem eq_nil (h : Aligned R [] ys) : ys = [] := List.eq_nil_of_length_eq_zero h.1.symm

/-- Only a list of one node is aligned with a list of one node. -/
theorem exists_singleton (h : Aligned R [x] ys) : ∃ y, ys = [y] ∧ R 0 x y := by
  obtain ⟨y, others, rfl, first, none⟩ := h.exists_of_cons
  obtain rfl := none.eq_nil
  exact ⟨y, rfl, first⟩

/-- Only a list of two nodes is aligned with a list of two nodes. -/
theorem exists_pair {x' : Node} (h : Aligned R [x, x'] ys) :
    ∃ y y', ys = [y, y'] ∧ R 0 x y ∧ R 1 x' y' := by
  obtain ⟨y, others, rfl, first, rest⟩ := h.exists_of_cons
  obtain ⟨y', rfl, second⟩ := rest.exists_singleton
  exact ⟨y, y', rfl, first, second⟩

/-- Lists of one node are aligned when the nodes are related. -/
theorem singleton (h : R 0 x y) : Aligned R [x] [y] := cons_iff.mpr ⟨h, nil⟩

/-- Lists of two nodes are aligned when the nodes are related one by one. -/
theorem pair {x' y' : Node} (h : R 0 x y) (h' : R 1 x' y') : Aligned R [x, x'] [y, y'] :=
  cons_iff.mpr ⟨h, singleton h'⟩

/-- Nodes at the same place are related otherwise if this follows for each place. -/
theorem mono (h : Aligned R xs ys)
    (weaker : ∀ i x y, xs[i]? = some x → ys[i]? = some y → R i x y → S i x y) :
    Aligned S xs ys :=
  ⟨h.1, fun i x y hx hy => weaker i x y hx hy (h.2 i x y hx hy)⟩

/-- Two alignments are one for both relations. -/
theorem and (h : Aligned R xs ys) (h' : Aligned S xs ys) :
    Aligned (fun i x y => R i x y ∧ S i x y) xs ys :=
  ⟨h.1, fun i x y hx hy => ⟨h.2 i x y hx hy, h'.2 i x y hx hy⟩⟩

/-- Changing every node on both sides keeps lists aligned when related nodes stay related. -/
theorem map {f g : Node → Node} (h : Aligned R xs ys)
    (mapped : ∀ i x y, R i x y → S i (f x) (g y)) : Aligned S (xs.map f) (ys.map g) := by
  refine ⟨by rw [List.length_map, List.length_map, h.1], fun i a b ha hb => ?_⟩
  rw [List.getElem?_map] at ha hb
  obtain ⟨x, hx, rfl⟩ := Option.map_eq_some_iff.mp ha
  obtain ⟨y, hy, rfl⟩ := Option.map_eq_some_iff.mp hb
  exact mapped i x y (h.2 i x y hx hy)

/-- What is the same of related nodes is the same of both lists. -/
theorem map_eq {f : Node → α} (h : Aligned R xs ys) (same : ∀ i x y, R i x y → f x = f y) :
    xs.map f = ys.map f := by
  refine List.ext_getElem (by rw [List.length_map, List.length_map, h.1]) fun i hx hy => ?_
  rw [List.length_map] at hx hy
  rw [List.getElem_map, List.getElem_map]
  exact same i _ _ (h.2 i _ _ (List.getElem?_eq_getElem hx) (List.getElem?_eq_getElem hy))

/-- A list is aligned with itself when each node is related to itself. -/
theorem refl (h : ∀ i x, xs[i]? = some x → R i x x) : Aligned R xs xs :=
  ⟨rfl, fun i x y hx hy => by cases hx.symm.trans hy; exact h i x hx⟩

/-- Lists whose nodes are equal one by one are equal. -/
theorem eq (h : Aligned (fun _ => Eq) xs ys) : xs = ys := by
  simpa using h.map_eq (f := id) fun _ _ _ same => same

/-- One node is changed, and the others stay as they are. -/
theorem modify {i : Nat} {f : Node → Node} (changed : ∀ x, xs[i]? = some x → R i x (f x))
    (others : ∀ j x, j ≠ i → xs[j]? = some x → R j x x) : Aligned R xs (xs.modify i f) := by
  refine ⟨(List.length_modify f xs i).symm, fun j x y hx hy => ?_⟩
  rw [List.getElem?_modify, hx] at hy
  by_cases here : i = j
  · subst here
    obtain rfl : f x = y := by simpa using hy
    exact changed x hx
  · obtain rfl : x = y := by simpa [here] using hy
    exact others j x (Ne.symm here) hx

/-- In lists that are not longer than `m`, positions below `m` are the positions themselves. -/
theorem mod (h : Aligned R xs ys) {m : Nat} (short : xs.length ≤ m) :
    Aligned (fun i => R (i % m)) xs ys := by
  refine h.mono fun i x y hx _ related => ?_
  obtain ⟨within, -⟩ := List.getElem?_eq_some_iff.mp hx
  rwa [Nat.mod_eq_of_lt (by omega)]

/-- Aligned lists can be put behind one another. -/
theorem append (h : Aligned R xs ys) (h' : Aligned (fun i => R (xs.length + i)) xs' ys') :
    Aligned R (xs ++ xs') (ys ++ ys') := by
  refine ⟨by rw [List.length_append, List.length_append, h.1, h'.1], fun i a b ha hb => ?_⟩
  by_cases left : i < xs.length
  · rw [List.getElem?_append_left left] at ha
    rw [List.getElem?_append_left (by rw [← h.1]; exact left)] at hb
    exact h.2 i a b ha hb
  · obtain ⟨j, rfl⟩ := Nat.exists_eq_add_of_le (Nat.not_lt.mp left)
    rw [List.getElem?_append_right (by omega), Nat.add_sub_cancel_left] at ha
    rw [List.getElem?_append_right (by rw [← h.1]; omega), ← h.1, Nat.add_sub_cancel_left] at hb
    exact h'.2 j a b ha hb

/-- In copies of two lists, nodes are related as they are in the lists themselves. -/
theorem replicate (h : Aligned R xs ys) (n : Nat) :
    Aligned (fun i => R (i % xs.length)) (List.replicate n xs).flatten
      (List.replicate n ys).flatten := by
  induction n with
  | zero => exact nil
  | succ n ih =>
    rw [List.replicate_succ, List.replicate_succ, List.flatten_cons, List.flatten_cons]
    apply append
    · exact h.mod (Nat.le_refl _)
    · simpa only [Nat.add_mod_left] using ih

end Aligned

/-! ## Steps -/

/-- The same fault, or the same result with related nodes, and in both cases the same record. -/
inductive Mirrored (post : α → Node → Node → Prop) :
    EStateM.Result Fault Focus α → EStateM.Result Fault Focus α → Prop where
  | ok {a : α} {x y : Node} {record : Record} (related : post a x y) :
      Mirrored post (.ok a ⟨x, record⟩) (.ok a ⟨y, record⟩)
  | error {e : Fault} {x y : Node} {record : Record} :
      Mirrored post (.error e ⟨x, record⟩) (.error e ⟨y, record⟩)

/-- With `x` and `y` in focus, the two steps come to the same and leave related nodes. -/
structure Mirrors (x y : Node) (step step' : EvalM α) (post : α → Node → Node → Prop) : Prop where
  met : ∀ record : Record, Mirrored post (step ⟨x, record⟩) (step' ⟨y, record⟩)

/-- The nodes are left as they are. -/
def Unmoved (x y : Node) (_ : α) (x' y' : Node) : Prop := x' = x ∧ y' = y

/-- The nodes are equal afterwards. -/
abbrev Merged (_ : α) (x y : Node) : Prop := x = y

namespace Mirrors

open EvalM (foldNodes)

variable {x y : Node} {step step' : EvalM α} {next next' : α → EvalM β}
  {post : α → Node → Node → Prop} {post' : β → Node → Node → Prop}

/-- Steps that only return a result mirror each other. -/
theorem pure {a : α} (h : post a x y) : Mirrors x y (Pure.pure a) (Pure.pure a) post :=
  ⟨fun _ => .ok h⟩

/-- Steps that fail with the same fault mirror each other. -/
theorem throw {e : Fault} :
    Mirrors x y (MonadExcept.throw e : EvalM α) (MonadExcept.throw e) post :=
  ⟨fun _ => .error⟩

/-- What is known of the nodes that are left can be weakened. -/
theorem mono {weaker : α → Node → Node → Prop} (h : Mirrors x y step step' post)
    (implied : ∀ a x' y', post a x' y' → weaker a x' y') : Mirrors x y step step' weaker := by
  constructor
  intro record
  have both := h.met record
  generalize step ⟨x, record⟩ = result at both ⊢
  generalize step' ⟨y, record⟩ = result' at both ⊢
  cases both with
  | ok related => exact .ok (implied _ _ _ related)
  | error => exact .error

/-- Two sequences of steps mirror each other when their steps do. -/
theorem bind (h : Mirrors x y step step' post)
    (hnext : ∀ a x' y', post a x' y' → Mirrors x' y' (next a) (next' a) post') :
    Mirrors x y (step >>= next) (step' >>= next') post' := by
  constructor
  intro record
  have both := h.met record
  change Mirrored post' (EStateM.bind step next ⟨x, record⟩) (EStateM.bind step' next' ⟨y, record⟩)
  unfold EStateM.bind
  generalize step ⟨x, record⟩ = result at both ⊢
  generalize step' ⟨y, record⟩ = result' at both ⊢
  cases both with
  | ok related => exact (hnext _ _ _ related).met _
  | error => exact .error

/-- A step that leaves the nodes alone comes first. -/
theorem andThen (h : Mirrors x y step step' (Unmoved x y))
    (hnext : ∀ a, Mirrors x y (next a) (next' a) post') :
    Mirrors x y (step >>= next) (step' >>= next') post' := by
  apply h.bind
  rintro a _ _ ⟨rfl, rfl⟩
  exact hnext a

/-- The same step with the same node in focus. -/
theorem refl (x : Node) (step : EvalM α) : Mirrors x x step step Merged := by
  constructor
  intro record
  cases step ⟨x, record⟩ with
  | ok a t => exact .ok rfl
  | error e t => exact .error

/-! ## The node in focus -/

/-- Both sides look at the node in focus and go on. -/
theorem node_bind {next next' : Node → EvalM β} (h : Mirrors x y (next x) (next' y) post') :
    Mirrors x y (EvalM.node >>= next) (EvalM.node >>= next') post' :=
  ⟨fun record => h.met record⟩

/-- Both sides count the children of the node in focus and go on. -/
theorem childCount_bind {next next' : Nat → EvalM β}
    (h : Mirrors x y (next x.childCount) (next' y.childCount) post') :
    Mirrors x y (EvalM.childCount >>= next) (EvalM.childCount >>= next') post' :=
  ⟨fun record => h.met record⟩

/-- Both sides change the node in focus. -/
theorem modifyNode {f f' : Node → Node} {post : Unit → Node → Node → Prop}
    (h : post () (f x) (f' y)) : Mirrors x y (EvalM.modifyNode f) (EvalM.modifyNode f') post :=
  ⟨fun _ => .ok h⟩

/-- Both sides change the node in focus and go on. -/
theorem modifyNode_bind {f f' : Node → Node} {next next' : Unit → EvalM β}
    (h : Mirrors (f x) (f' y) (next ()) (next' ()) post') :
    Mirrors x y (EvalM.modifyNode f >>= next) (EvalM.modifyNode f' >>= next') post' :=
  ⟨fun record => h.met record⟩

/-! ## Steps that leave the nodes alone -/

/-- Taking a note mirrors itself and leaves the nodes. -/
theorem note (n : Note) : Mirrors x y (EvalM.note n) (EvalM.note n) (Unmoved x y) :=
  ⟨fun _ => .ok ⟨rfl, rfl⟩⟩

/-- Reporting a problem mirrors itself and leaves the nodes. -/
theorem report (problem : Problem) :
    Mirrors x y (EvalM.report problem) (EvalM.report problem) (Unmoved x y) := by
  constructor
  intro record
  unfold EvalM.report
  cases problem.isWritable with
  | false => exact .error
  | true => exact .ok ⟨rfl, rfl⟩

/-- Turning a numeric result into a step mirrors itself and leaves the nodes. -/
theorem ofNumber (number : Except NumberError α) :
    Mirrors x y (EvalM.ofNumber number) (EvalM.ofNumber number) (Unmoved x y) := by
  cases number with
  | ok a => exact pure ⟨rfl, rfl⟩
  | error e => exact throw

/-- Both sides are refused for having too few children, or both go on. -/
theorem requireChildren_bind {needed : Nat} {next next' : Unit → EvalM β}
    (kind : x.kind = y.kind) (count : x.childCount = y.childCount)
    (h : Mirrors x y (next ()) (next' ()) post') :
    Mirrors x y (EvalM.requireChildren needed >>= next) (EvalM.requireChildren needed >>= next')
      post' := by
  have required : Mirrors x y (EvalM.requireChildren needed) (EvalM.requireChildren needed)
      (Unmoved x y) := by
    unfold EvalM.requireChildren
    apply node_bind
    rw [kind, count]
    split
    · exact throw
    · exact pure ⟨rfl, rfl⟩
  exact required.andThen fun _ => h

/-- Both sides are refused for having too many children, or both go on. -/
theorem requireChildrenUpTo_bind {most : Nat} {next next' : Unit → EvalM β}
    (kind : x.kind = y.kind) (count : x.childCount = y.childCount)
    (h : Mirrors x y (next ()) (next' ()) post') :
    Mirrors x y (EvalM.requireChildrenUpTo most >>= next)
      (EvalM.requireChildrenUpTo most >>= next') post' := by
  have required : Mirrors x y (EvalM.requireChildrenUpTo most) (EvalM.requireChildrenUpTo most)
      (Unmoved x y) := by
    unfold EvalM.requireChildrenUpTo
    apply node_bind
    rw [kind, count]
    split
    · exact throw
    · exact pure ⟨rfl, rfl⟩
  exact required.andThen fun _ => h

/-! ## Moving the focus -/

/-- Steps on two children mirror each other on the nodes that hold them. -/
theorem onChild {i : Nat} {c d : Node} (hc : x.children[i]? = some c)
    (hd : y.children[i]? = some d) (h : Mirrors c d step step' post) :
    Mirrors x y (EvalM.onChild i step) (EvalM.onChild i step') fun a x' y' =>
      ∃ c' d', x' = x.setChild i c' ∧ y' = y.setChild i d' ∧ post a c' d' := by
  constructor
  intro record
  have both := h.met record
  unfold EvalM.onChild
  simp only [hc, hd]
  generalize step ⟨c, record⟩ = result at both ⊢
  generalize step' ⟨d, record⟩ = result' at both ⊢
  cases both with
  | ok related => exact .ok ⟨_, _, rfl, rfl, related⟩
  | error => exact .error

/-- A child of each node is looked at. -/
theorem onChild_node_bind {i : Nat} {c d : Node} (hc : x.children[i]? = some c)
    (hd : y.children[i]? = some d) {next next' : Node → EvalM β}
    (h : Mirrors x y (next c) (next' d) post') :
    Mirrors x y (EvalM.onChild i EvalM.node >>= next) (EvalM.onChild i EvalM.node >>= next')
      post' := by
  -- Looking at a child puts it back where it was.
  have looked {x c : Node} (hc : x.children[i]? = some c) (record : Record) :
      EvalM.onChild i EvalM.node ⟨x, record⟩ = .ok c ⟨x, record⟩ := by
    have same : x.setChild i c = x := by
      obtain ⟨kind, attributes, children⟩ := x
      obtain ⟨within, rfl⟩ := List.getElem?_eq_some_iff.mp hc
      exact congrArg (Node.mk kind attributes) (List.set_getElem_self within)
    have run : EvalM.onChild i EvalM.node ⟨x, record⟩ = .ok c ⟨x.setChild i c, record⟩ := by
      unfold EvalM.onChild
      simp only [hc]
      rfl
    rw [run, same]
  constructor
  intro record
  change Mirrored post' (EStateM.bind _ next _) (EStateM.bind _ next' _)
  unfold EStateM.bind
  rw [looked hc, looked hd]
  exact h.met record

/-- Two steps with a child of the same node in focus. -/
theorem onChild_self {i : Nat}
    (h : ∀ c, x.children[i]? = some c → Mirrors c c step step' Merged) :
    Mirrors x x (EvalM.onChild i step) (EvalM.onChild i step') Merged := by
  cases hc : x.children[i]? with
  | none =>
    constructor
    intro record
    unfold EvalM.onChild
    simp only [hc]
    exact .error
  | some c =>
    apply (onChild hc hc (h c hc)).mono
    rintro a _ _ ⟨c', d', rfl, rfl, rfl⟩
    rfl

/-- The first of the nodes are visited with the same result, and so are the others. -/
theorem foldNodes {step step' : β → EvalM β} {post : Nat → Node → Node → Prop} {xs ys : List Node}
    (h : Aligned (fun i c d => ∀ acc, Mirrors c d (step acc) (step' acc) fun _ => post i) xs ys)
    (acc : β) (record : Record) :
    (∃ b xs' ys' record', foldNodes step acc xs record = .ok b (xs', record') ∧
      foldNodes step' acc ys record = .ok b (ys', record') ∧ Aligned post xs' ys') ∨
    ∃ e xs' ys' record', foldNodes step acc xs record = .error e (xs', record') ∧
      foldNodes step' acc ys record = .error e (ys', record') := by
  -- The relation depends on the place, so it moves on by one with every node.
  induction xs generalizing ys post acc record with
  | nil =>
    obtain rfl := h.eq_nil
    exact .inl ⟨acc, [], [], record, rfl, rfl, .nil⟩
  | cons c xs ih =>
    obtain ⟨d, ys, rfl, first, others⟩ := h.exists_of_cons
    have both := (first acc).met record
    simp only [EvalM.foldNodes]
    generalize step acc ⟨c, record⟩ = result at both ⊢
    generalize step' acc ⟨d, record⟩ = result' at both ⊢
    -- The first nodes fail together, or both succeed with the same result and the others follow.
    cases both with
    | error => exact .inr ⟨_, _, _, _, rfl, rfl⟩
    | @ok b c' d' record₁ related =>
      rcases ih others b record₁ with
        ⟨b', xs', ys', record', run, run', aligned⟩ | ⟨e, xs', ys', record', run, run'⟩
      · simp only [run, run']
        exact .inl ⟨_, _, _, _, rfl, rfl, Aligned.cons_iff.mpr ⟨related, aligned⟩⟩
      · simp only [run, run']
        exact .inr ⟨_, _, _, _, rfl, rfl⟩

/-- Folds over the children mirror each other when the steps on aligned children do. -/
theorem foldChildren {step step' : β → EvalM β} {post : Nat → Node → Node → Prop}
    (h : Aligned (fun i c d => ∀ acc, Mirrors c d (step acc) (step' acc) fun _ => post i)
      x.children y.children) (start : β) :
    Mirrors x y (EvalM.foldChildren step start) (EvalM.foldChildren step' start) fun _ x' y' =>
      ∃ xs ys, x' = x.withChildren xs ∧ y' = y.withChildren ys ∧ Aligned post xs ys := by
  constructor
  intro record
  unfold EvalM.foldChildren
  rcases foldNodes h start record with
    ⟨b, xs, ys, record', run, run', aligned⟩ | ⟨e, xs, ys, record', run, run'⟩
  · simp only [run, run']
    exact .ok ⟨xs, ys, rfl, rfl, aligned⟩
  · simp only [run, run']
    exact .error

end Mirrors

end DiceNotation
