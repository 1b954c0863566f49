import StepGraph.Proofs.Node.Separation

/-!
# Which hidden inputs are shared

The steps of the vertices declare their hidden inputs one after the other. The first declaration of
a name gives the shared input, so that an allotment which has seen the declarations `ds` has those
of `Entries.firsts ds`, in this order: `Allotment.Declares`. Later declarations of the name add
nothing, but they must have the same type.

`Clashes` says which declaration is the first that has another type. If ids, types and slots are as
they should be, making nodes fails there and nowhere else.
-/

namespace StepGraph

open Plan

namespace Entries

variable {κ α β : Type*} [DecidableEq κ]

/-- The entry goes to the end unless there is one with its key. -/
def keepFirst (kept : List (κ × α)) (e : κ × α) : List (κ × α) :=
  if e.1 ∈ keys kept then kept else kept ++ [e]

/-- The entries of a list without those whose keys have occurred before. -/
def firsts (es : List (κ × α)) : List (κ × α) := es.foldl keepFirst []

theorem firsts_append_singleton (es : List (κ × α)) (e : κ × α) :
    firsts (es ++ [e]) = keepFirst (firsts es) e :=
  List.foldl_append

theorem find?_keepFirst (k : κ) (kept : List (κ × α)) (e : κ × α) :
    find? k (keepFirst kept e) = find? k (kept ++ [e]) := by
  rw [keepFirst]
  split
  · next hmem =>
    rw [find?_append, find?_cons, find?_nil]
    by_cases hk : e.1 = k
    · cases hfound : find? k kept with
      | none => exact absurd (hk ▸ hmem) (find?_eq_none_iff.1 hfound)
      | some a => rfl
    · rw [if_neg hk, Option.or_none]
  · rfl

theorem find?_firsts (k : κ) (es : List (κ × α)) : find? k (firsts es) = find? k es := by
  induction es using List.reverseRecOn with
  | nil => rfl
  | append_singleton es e ih =>
      rw [firsts_append_singleton, find?_keepFirst, find?_append, find?_append, ih]

theorem keys_firsts (es : List (κ × α)) : keys (firsts es) = (keys es).eraseDups := by
  induction es using List.reverseRecOn with
  | nil => rfl
  | append_singleton es e ih =>
      have hkeys : keys (es ++ [e]) = keys es ++ [e.1] := List.map_append
      rw [firsts_append_singleton, keepFirst, ih, hkeys, eraseDups_append_singleton]
      simp only [List.mem_eraseDups]
      split
      · exact ih
      · rw [← ih, keys, List.map_append]
        rfl

theorem find?_map_entry (f : κ × α → β) (k : κ) (es : List (κ × α)) :
    find? k (es.map fun e => (e.1, f e)) = (find? k es).map fun a => f (k, a) := by
  induction es with
  | nil => rfl
  | cons e es ih =>
      rw [List.map_cons, find?_cons, find?_cons, ih]
      split
      · next hk => rw [← hk, Option.map_some]
      · rfl

end Entries

/-- The hidden inputs that the steps of vertices declare, in order. -/
def Plan.hiddenDeclarations (vs : List Vertex) : List (String × InputSpec) :=
  vs.flatMap fun v => v.step.schema.hidden.entries

/-- The hidden inputs that vertices declare, each name with its first declaration. -/
def Vertex.hiddenInputs (vs : List Vertex) : List (String × InputSpec) :=
  Entries.firsts (Plan.hiddenDeclarations vs)

namespace Plan

@[simp] theorem hiddenDeclarations_cons (v : Vertex) (vs : List Vertex) :
    hiddenDeclarations (v :: vs) = v.step.schema.hidden.entries ++ hiddenDeclarations vs :=
  List.flatMap_cons ..

theorem keys_hiddenDeclarations (vs : List Vertex) :
    Entries.keys (hiddenDeclarations vs) = vs.flatMap fun v => v.step.schema.hidden.keys :=
  List.map_flatMap

theorem mem_hiddenDeclarations {vs : List Vertex} {d : String × InputSpec} :
    d ∈ hiddenDeclarations vs ↔ ∃ v ∈ vs, d ∈ v.step.schema.hidden.entries :=
  List.mem_flatMap

/-! ## Declarations that do not agree -/

/-- The declarations of one name have one type. -/
def Consistent (ds : List (String × InputSpec)) : Prop :=
  ∀ d ∈ ds, ∀ f ∈ ds, d.1 = f.1 → d.2.typeTag = f.2.typeTag

theorem consistent_hiddenDeclarations_iff {vs : List Vertex} :
    Consistent (hiddenDeclarations vs) ↔ ∀ v ∈ vs, ∀ w ∈ vs,
      ∀ d ∈ v.step.schema.hidden.entries, ∀ f ∈ w.step.schema.hidden.entries,
        d.1 = f.1 → d.2.typeTag = f.2.typeTag := by
  constructor
  · intro h v hv w hw d hd f hf
    exact h d (mem_hiddenDeclarations.2 ⟨v, hv, hd⟩) f (mem_hiddenDeclarations.2 ⟨w, hw, hf⟩)
  · intro h d hd f hf
    obtain ⟨v, hv, hd⟩ := mem_hiddenDeclarations.1 hd
    obtain ⟨w, hw, hf⟩ := mem_hiddenDeclarations.1 hf
    exact h v hv w hw d hd f hf

/-- Behind the declarations `ds` there is one among `fs` that does not have the type of the first
one of its name, and it is the first such; the failure names both types. -/
def Clashes (ds fs : List (String × InputSpec)) (e : CompileError) : Prop :=
  ∃ before name spec after first, fs = before ++ (name, spec) :: after ∧
    Consistent (ds ++ before) ∧ Entries.find? name (ds ++ before) = some first ∧
    first.typeTag ≠ spec.typeTag ∧ e = .hiddenInputTypeMismatch name first.typeTag spec.typeTag

variable {name : String} {spec : InputSpec} {ds fs gs : List (String × InputSpec)}
  {e e' : CompileError}

/-- A declaration can be added if it has the type of the first one of its name. -/
theorem Consistent.append_singleton (h : Consistent ds) (name : String) (spec : InputSpec)
    (hspec : ∀ first, Entries.find? name ds = some first → first.typeTag = spec.typeTag) :
    Consistent (ds ++ [(name, spec)]) := by
  have hadded : ∀ d ∈ ds, d.1 = name → d.2.typeTag = spec.typeTag := by
    intro d hd hname
    obtain ⟨first, hfirst⟩ : ∃ first, Entries.find? name ds = some first := by
      rw [← Option.ne_none_iff_exists', ne_eq, Entries.find?_eq_none_iff, not_not]
      exact hname ▸ List.mem_map_of_mem hd
    rw [← hspec first hfirst]
    exact h d hd _ (Entries.mem_of_find?_eq_some hfirst) hname
  intro d hd f hf hname
  rcases List.mem_append.1 hd with hd | hd <;> rcases List.mem_append.1 hf with hf | hf
  · exact h d hd f hf hname
  · obtain rfl := List.mem_singleton.1 hf
    exact hadded d hd hname
  · obtain rfl := List.mem_singleton.1 hd
    exact (hadded f hf hname.symm).symm
  · rw [List.mem_singleton.1 hd, List.mem_singleton.1 hf]

/-- A declaration of another type than the first one of its name agrees with nothing around it. -/
theorem not_consistent_of_find? {first : InputSpec} (hfirst : Entries.find? name ds = some first)
    (hne : first.typeTag ≠ spec.typeTag) (fs : List (String × InputSpec)) :
    ¬ Consistent (ds ++ (name, spec) :: fs) := by
  intro h
  refine hne (h (name, first) ?_ (name, spec) (by simp) rfl)
  exact List.mem_append_left _ (Entries.mem_of_find?_eq_some hfirst)

theorem Clashes.append_right (h : Clashes ds fs e) (gs : List (String × InputSpec)) :
    Clashes ds (fs ++ gs) e := by
  obtain ⟨before, name, spec, after, first, rfl, h⟩ := h
  exact ⟨before, name, spec, after ++ gs, first, by simp, h⟩

theorem Clashes.of_append (fs : List (String × InputSpec)) (h : Clashes (ds ++ fs) gs e) :
    Clashes ds (fs ++ gs) e := by
  obtain ⟨before, name, spec, after, first, rfl, h⟩ := h
  rw [List.append_assoc] at h
  exact ⟨fs ++ before, name, spec, after, first, by simp, h⟩

theorem Clashes.not_consistent (h : Clashes ds fs e) : ¬ Consistent (ds ++ fs) := by
  obtain ⟨before, name, spec, after, first, rfl, -, hfirst, hne, -⟩ := h
  rw [← List.append_assoc]
  exact not_consistent_of_find? hfirst hne after

/-- There is one first declaration of another type, and so one failure. -/
theorem Clashes.unique (h : Clashes ds fs e) (h' : Clashes ds fs e') : e = e' := by
  obtain ⟨before, name, spec, after, first, rfl, hbefore, hfirst, hne, rfl⟩ := h
  obtain ⟨before', name', spec', after', first', heq, hbefore', hfirst', hne', rfl⟩ := h'
  -- neither stands behind the other one
  obtain rfl : before = before' := by
    rcases List.append_eq_append_iff.1 heq with ⟨mid, rfl, htail⟩ | ⟨mid, rfl, htail⟩
    · cases mid with
      | nil => rw [List.append_nil]
      | cons d mid =>
          obtain ⟨rfl, -⟩ := List.cons.inj htail
          rw [← List.append_assoc] at hbefore'
          exact absurd hbefore' (not_consistent_of_find? hfirst hne mid)
    · cases mid with
      | nil => rw [List.append_nil]
      | cons d mid =>
          obtain ⟨rfl, -⟩ := List.cons.inj htail
          rw [← List.append_assoc] at hbefore
          exact absurd hbefore (not_consistent_of_find? hfirst' hne' mid)
  obtain ⟨hd, -⟩ := List.cons.inj (List.append_cancel_left heq)
  cases hd
  rw [hfirst] at hfirst'
  cases hfirst'
  rfl

/-! ## The inputs that are shared -/

namespace Allotment

variable {a : Allotment}

/-- The hidden inputs of an allotment are declared like this. -/
def Declares (a : Allotment) (es : List (String × InputSpec)) : Prop :=
  a.hidden.entries.map (fun e => (e.1, Input.declaration e.2)) = es.map fun e => (e.1, .hidden, e)

theorem declares_nil (start : Register) : Declares ⟨.empty, start⟩ (Entries.firsts []) := rfl

namespace Declares

variable (h : a.Declares (Entries.firsts ds))

include h

theorem find?_eq (x : String) : (a.hidden.find? x).map Input.declaration =
    (Entries.find? x ds).map fun spec => (.hidden, x, spec) := by
  have hentries := congrArg (Entries.find? x) h
  rwa [Entries.find?_map_entry fun e => Input.declaration e.2,
    Entries.find?_map_entry fun e => (InputGroup.hidden, e), Entries.find?_firsts] at hentries

theorem find?_eq_none (hx : a.hidden.find? name = none) : Entries.find? name ds = none := by
  have hname := h.find?_eq name
  rw [hx] at hname
  exact Option.map_eq_none_iff.1 hname.symm

theorem find?_eq_some {i : Input} (hx : a.hidden.find? name = some i) :
    Entries.find? name ds = some i.spec ∧ i.group = .hidden ∧ i.name = name := by
  have hname := h.find?_eq name
  rw [hx] at hname
  obtain ⟨spec, hspec, heq⟩ := Option.map_eq_some_iff.1 hname.symm
  obtain ⟨hgroup, hrest⟩ := Prod.mk.inj heq
  obtain ⟨hname, rfl⟩ := Prod.mk.inj hrest
  exact ⟨hspec, hgroup.symm, hname.symm⟩

/-- The types that the shared inputs have agree with all declarations exactly if these agree with
each other. -/
theorem consistent_iff : Consistent ds ↔ ∀ d ∈ ds, a.Agrees d.1 d.2 := by
  constructor
  · intro hc d hd
    cases hx : a.hidden.find? d.1 with
    | none =>
        exact absurd (List.mem_map_of_mem hd) (Entries.find?_eq_none_iff.1 (h.find?_eq_none hx))
    | some i =>
        have hfirst := Entries.mem_of_find?_eq_some (h.find?_eq_some hx).1
        exact ⟨i, hx, hc (d.1, i.spec) hfirst d hd rfl⟩
  · intro hagrees d hd f hf hname
    obtain ⟨i, hi, hid⟩ := hagrees d hd
    obtain ⟨j, hj, hjf⟩ := hagrees f hf
    rw [← hname, hi] at hj
    cases hj
    rw [← hid, hjf]

omit h in
theorem keys_eq {es : List (String × InputSpec)} (h : a.Declares es) :
    a.hidden.keys = Entries.keys es := by
  have hkeys := congrArg (List.map Prod.fst) h
  rwa [List.map_map, List.map_map] at hkeys

theorem share (name : String) (spec : InputSpec) :
    (a.share name spec).Declares (Entries.firsts (ds ++ [(name, spec)])) := by
  rw [Entries.firsts_append_singleton, Entries.keepFirst, ← h.keys_eq]
  cases hname : a.hidden.find? name with
  | some i => rwa [share_of_some hname, if_pos (OrderedMap.mem_keys_iff.2 ⟨i, hname⟩)]
  | none =>
      have hnew := OrderedMap.find?_eq_none_iff.1 hname
      rw [share_of_none hname, if_neg hnew, Declares, OrderedMap.entries_insert_of_not_mem hnew,
        List.map_append, List.map_append, h]
      rfl

theorem shareAll (fs : List (String × InputSpec)) :
    (a.shareAll fs).Declares (Entries.firsts (ds ++ fs)) := by
  induction fs generalizing a ds with
  | nil => simpa using h
  | cons f fs ih => simpa using ih (h.share f.1 f.2)

theorem after (step : Step) :
    (a.after step).Declares (Entries.firsts (ds ++ step.schema.hidden.entries)) :=
  shareAll (a := ⟨a.hidden, a.next.advance step.schema.visible.length⟩) h _

/-- After the vertices of a list there are the hidden inputs that are first declared by these. -/
theorem allot (vs : List Vertex) :
    (a.allot vs).Declares (Entries.firsts (ds ++ hiddenDeclarations vs)) := by
  induction vs generalizing a ds with
  | nil => simpa [hiddenDeclarations] using h
  | cons v vs ih => simpa using ih (h.after v.step)

end Declares

/-- The vertices of a list have the hidden inputs that they declare first. -/
theorem declares_allot (start : Register) (vs : List Vertex) :
    Declares (allot ⟨.empty, start⟩ vs) (Entries.firsts (hiddenDeclarations vs)) :=
  (declares_nil start).allot vs

end Allotment

variable {catalog : Catalog} {start : Register} {g : Graph} {ng : NodeGraph}

/-- The nodes of a graph share the hidden inputs that its vertices declare. -/
theorem map_hidden_of_createNodes (h : createNodes catalog start g.nodes = .ok ng) :
    ng.hidden.entries.map (fun e => (e.1, Input.declaration e.2)) =
      (Vertex.hiddenInputs (g.vertices catalog)).map fun e => (e.1, .hidden, e) := by
  obtain ⟨⟨ns, a⟩, hmake, hng⟩ := Except.bind_eq_ok_iff.1 h
  cases hng
  obtain ⟨-, -, -, rfl, -⟩ := makeNodes_eq_ok_iff.1 hmake
  exact Allotment.declares_allot start (g.vertices catalog)

/-- A hidden input is declared as the first declaration of its name says. -/
theorem declared_of_createNodes (h : createNodes catalog start g.nodes = .ok ng) {x : String}
    {i : Input} (hi : ng.hidden.find? x = some i) :
    Entries.find? x (hiddenDeclarations (g.vertices catalog)) = some i.spec ∧
      i.group = .hidden ∧ i.name = x := by
  have hdeclares : Allotment.Declares ⟨ng.hidden, ng.next⟩
    (Entries.firsts (hiddenDeclarations (g.vertices catalog))) := map_hidden_of_createNodes h
  exact hdeclares.find?_eq_some hi

theorem group_of_createNodes (h : createNodes catalog start g.nodes = .ok ng) {x : String}
    {i : Input} (hi : ng.hidden.find? x = some i) : i.group = .hidden :=
  (declared_of_createNodes h hi).2.1

/-! ## Where making nodes fails -/

/-- Adding hidden inputs fails at the first declaration of another type. -/
theorem Binding.clashes_of_addAll_hidden {b : Binding}
    (h : b.allotment.Declares (Entries.firsts ds)) (hc : Consistent ds)
    (he : b.addAll (fs.map fun d => (.hidden, d)) = .error e) :
    Clashes ds fs e := by
  induction fs generalizing b ds with
  | nil => cases he
  | cons d fs ih =>
      obtain ⟨name, spec⟩ := d
      have hnext := h.share name spec
      rw [List.map_cons, addAll, add] at he
      cases hname : b.allotment.hidden.find? name with
      | none =>
          have hnew := hc.append_singleton name spec fun first hfirst => by
            rw [h.find?_eq_none hname] at hfirst
            cases hfirst
          rw [Allotment.share_of_none hname] at hnext
          simp only [hname] at he
          exact Clashes.of_append [(name, spec)] (ih hnext hnew he)
      | some shared =>
          obtain ⟨hfirst, -⟩ := h.find?_eq_some hname
          simp only [hname] at he
          by_cases htype : shared.typeTag = spec.typeTag
          · have hagrees := hc.append_singleton name spec fun first hfirst' => by
              rw [hfirst] at hfirst'
              cases hfirst'
              exact htype
            rw [Allotment.share_of_some hname] at hnext
            simp only [if_pos htype] at he
            exact Clashes.of_append [(name, spec)]
              (ih (b := ⟨b.inputMap.insert name shared.register, b.inputs, b.allotment⟩) hnext
                hagrees he)
          · rw [if_neg htype] at he
            cases he
            exact ⟨[], name, spec, fs, shared.spec, rfl, by rwa [List.append_nil],
              by rwa [List.append_nil], htype, rfl⟩

theorem Node.clashes_of_make {a : Allotment} {id : NodeId} {saved : Graph.Node} {step : Step}
    (h : a.Declares (Entries.firsts ds)) (hc : Consistent ds)
    (he : Node.make id saved step a = .error e) :
    Clashes ds step.schema.hidden.entries e := by
  rw [Node.make, InputSchema.entries_eq,
    Binding.addAll_visible fun _ => InputSchema.group_ne_hidden_of_mem_visible] at he
  split at he
  · cases he
  · next e' he' =>
    cases he
    exact Binding.clashes_of_addAll_hidden h hc he'

/-- If the names can be taken, the slots are set apart. -/
theorem Node.exists_separateSlots_of_make {a a' : Allotment} {id : NodeId} {saved : Graph.Node}
    {step : Step} {n : Node} {names : List String} (hmake : Node.make id saved step a = .ok (n, a'))
    (hnames : names.Subperm (step.schema.visible.map fun d => d.2.1)) :
    ∃ m, n.separateSlots names = .ok m := by
  obtain ⟨-, -, rfl⟩ := Node.make_eq_ok_iff.1 hmake
  rw [separateSlots_isOk_iff, fresh, map_name_freshInputs]
  exact hnames

/-- Making the nodes of a list fails only where hidden inputs clash, if nothing else is wrong. -/
theorem clashes_of_makeNodes {start : Nat} {seen : List NodeId} {a : Allotment}
    {saved : List Graph.Node} (hnew : ∀ id ∈ Graph.idsFrom start saved, id ∉ seen)
    (hnodup : (Graph.idsFrom start saved).Nodup)
    (hknown : ∀ n ∈ saved, ∃ step, catalog n.type = some step)
    (hslots : ∀ v ∈ Graph.verticesFrom catalog start saved,
      v.slotNames.Subperm (v.step.schema.visible.map fun d => d.2.1))
    (h : a.Declares (Entries.firsts ds)) (hc : Consistent ds)
    (he : makeNodes catalog start seen a saved = .error e) :
    Clashes ds (hiddenDeclarations (Graph.verticesFrom catalog start saved)) e := by
  induction saved generalizing start seen a ds with
  | nil => cases he
  | cons s saved ih =>
      obtain ⟨⟨step, hstep⟩, hknown⟩ := List.forall_mem_cons.1 hknown
      have hvertices : Graph.verticesFrom catalog start (s :: saved) =
          ⟨start, s.idAt start, s, step⟩ :: Graph.verticesFrom catalog (start + 1) saved := by
        rw [Graph.verticesFrom, hstep]
      rw [hvertices] at hslots
      obtain ⟨hown, hslots⟩ := List.forall_mem_cons.1 hslots
      have hfirst : s.idAt start ∉ seen := hnew _ (by simp)
      obtain ⟨hnew, hnodup⟩ := (new_and_nodup_cons_iff hfirst).1 ⟨hnew, hnodup⟩
      rw [hvertices, hiddenDeclarations_cons]
      simp only [makeNodes, if_neg hfirst, hstep, pure_bind] at he
      rcases Except.bind_eq_error_iff.1 he with hmake | ⟨⟨n, a'⟩, hmake, he⟩
      · exact (Node.clashes_of_make h hc hmake).append_right _
      obtain ⟨m, hm⟩ := Node.exists_separateSlots_of_make hmake hown
      rcases Except.bind_eq_error_iff.1 he with hslot | ⟨m', -, he⟩
      · cases hm.symm.trans hslot
      rcases Except.bind_eq_error_iff.1 he with hrest | ⟨r, -, he⟩
      · obtain ⟨hagrees, rfl, -⟩ := Node.make_eq_ok_iff.1 hmake
        have hnext := h.after step
        have hagree : Consistent (ds ++ step.schema.hidden.entries) := by
          refine hnext.consistent_iff.2 fun d hd => ?_
          rcases List.mem_append.1 hd with hd | hd
          · obtain ⟨i, hi, htype⟩ := h.consistent_iff.1 hc d hd
            exact ⟨i, Allotment.find?_after hi, htype⟩
          · exact hagrees d hd
        exact Clashes.of_append _ (ih hnew hnodup hknown hslots hnext hagree hrest)
      · cases he

end Plan

end StepGraph
