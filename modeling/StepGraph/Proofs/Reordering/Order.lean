import StepGraph.Proofs.Pipeline
import StepGraph.Proofs.Reordering.Settled

/-!
# Any order that follows the links computes the same

Where no slot is the target of two links, every register of a compiled graph has one writer at most.
The readers of a register that a link feeds come after its writer in every order in which each node
comes after those it has links from. So the stages are in order however they are arranged, as long
as they follow the links, and they do the same as in the order of the schedule.
-/

namespace StepGraph

open Plan

/-- Every id comes after those that its node has links from. -/
def Graph.Follows (g : Graph) (ids : List NodeId) : Prop :=
  ∀ before id after, ids = before ++ id :: after →
    ∀ l ∈ g.links, l.toNode = id → l.fromNode ∈ before

/-- No slot is the target of two links. -/
def Graph.SingleFed (g : Graph) : Prop := (g.links.map fun l => (l.toNode, l.toSlot)).Nodup

instance (g : Graph) : Decidable g.SingleFed := List.nodupDecidable _

variable {catalog : Catalog} {g : Graph} {options : ExportOptions}

theorem Graph.IsTopological.follows {order : List Vertex} (h : g.IsTopological catalog order) :
    g.Follows (order.map Vertex.id) := by
  intro before id after hsplit l hl hto
  obtain ⟨first, rest, rfl, rfl, hrest⟩ := List.map_eq_append_iff.1 hsplit
  obtain ⟨v, later, rfl, rfl, -⟩ := List.map_eq_cons_iff.1 hrest
  exact h.respects first v later rfl l hl hto

namespace Plan.NodeGraph

variable {ng : NodeGraph} {order : List Nat} {p : Plan}

/-- Where slots are fed once, no two wires lead to one register. -/
theorem Represents.eq_of_wire_register (h : ng.Represents catalog g)
    (hfits : ∀ l ∈ g.links, Fits ng.nodes l) (hfed : g.SingleFed) {w w' : Wire}
    (hw : w ∈ ng.wires g options) (hw' : w' ∈ ng.wires g options)
    (heq : w.register = w'.register) : w = w' := by
  rcases mem_wires.1 hw with ⟨l, hl, rfl⟩ | ⟨x, hx, rfl⟩
  · obtain ⟨t, ht, i, htid, hslot, hwire⟩ := h.exists_slot_of_fits (hfits l hl)
    have hi : i ∈ ng.ownedInputs := mem_ownedInputs_of_feed ht (mem_feeds_of_slot hslot)
    have hregister : w'.register = i.register := by rw [← heq, hwire]
    obtain ⟨l', hl', rfl, t', ht', htid', hslot'⟩ := h.exists_link_of_wire hfits hw' hi hregister
    obtain ⟨rfl, -⟩ := h.eq_of_register_eq ht ht' (mem_feeds_of_slot hslot)
      (mem_feeds_of_slot hslot') rfl
    -- both links enter the slot that the input is
    have hslots : t.slots.Nodup := by
      have hfeeds : (t.feeds.map Input.register).Nodup := by
        have hsub : t.feeds.Sublist (ng.nodes.flatMap Node.feeds) :=
          List.sublist_flatten_of_mem (List.mem_map_of_mem ht)
        exact h.inputs.2.1.sublist ((hsub.trans (List.sublist_append_left _ _)).map _)
      exact hfeeds.of_map.sublist (List.sublist_append_left _ _)
    have hplace : l.toSlot.toNat = l'.toSlot.toNat :=
      (List.getElem?_inj (List.getElem?_eq_some_iff.1 hslot).1 hslots).1 (hslot.trans hslot'.symm)
    have htarget : (l.toNode, l.toSlot) = (l'.toNode, l'.toSlot) := by
      rw [← htid, ← htid', UInt64.toNat_inj.1 hplace]
    rw [List.inj_on_of_nodup_map hfed hl hl' htarget]
  · rcases mem_wires.1 hw' with ⟨l', hl', rfl⟩ | ⟨x', hx', rfl⟩
    · obtain ⟨t, ht, i, -, hslot, hwire⟩ := h.exists_slot_of_fits (hfits l' hl')
      have hi : i ∈ ng.ownedInputs := mem_ownedInputs_of_feed ht (mem_feeds_of_slot hslot)
      rw [hwire] at heq
      exact absurd heq.symm (h.register_ne_of_export hx hi)
    · rw [List.inj_on_of_nodup_map nodup_register_exports hx hx' heq]

section

variable (h : ng.Represents catalog g) (hfits : ∀ l ∈ g.links, Fits ng.nodes l)

include h hfits

/-- Where slots are fed once, no two nodes write to one register. -/
theorem Represents.id_eq_of_writesTo (hfed : g.SingleFed) {n m : Node} (hn : n ∈ ng.nodes)
    (hm : m ∈ ng.nodes) {r : Register} (hwrites : (ng.stage g options n).WritesTo r)
    (hwrites' : (ng.stage g options m).WritesTo r) : n.id = m.id := by
  obtain ⟨k, hwrites⟩ := hwrites
  obtain ⟨k', hwrites'⟩ := hwrites'
  have hwire := ((h.writesAt_iff hn).1 hwrites).2
  have hwire' := ((h.writesAt_iff hm).1 hwrites').2
  exact congrArg Wire.source (h.eq_of_wire_register hfits hfed hwire hwire' rfl)

/-- A node that reads from a register has a link from each node that writes to it. -/
theorem Represents.exists_link_of_writesTo {n m : Node} (hn : n ∈ ng.nodes) (hm : m ∈ ng.nodes)
    {r : Register} (hreads : (ng.stage g options n).ReadsFrom r)
    (hwrites : (ng.stage g options m).WritesTo r) :
    ∃ l ∈ g.links, l.fromNode = m.id ∧ l.toNode = n.id := by
  obtain ⟨k, hwrites⟩ := hwrites
  have hwire := ((h.writesAt_iff hm).1 hwrites).2
  obtain ⟨l, hl, hlink, hto⟩ := h.exists_link_of_mem_inputMap hfits hn hreads hwire rfl
  exact ⟨l, hl, congrArg Wire.source hlink, hto⟩

/-- The last nodes of an order that follows the links can run in it. -/
theorem Represents.ordered_suffix (hfed : g.SingleFed) (before rest : List Node)
    (hperm : (before ++ rest).Perm ng.nodes)
    (hfollows : g.Follows ((before ++ rest).map Node.id)) :
    Ordered (rest.map (ng.stage g options)) := by
  have hnodup : ((before ++ rest).map Node.id).Nodup := (hperm.map Node.id).nodup_iff.2 h.nodup_ids
  induction rest generalizing before with
  | nil => exact Ordered.nil
  | cons n rest ih =>
      have hmem : ∀ m ∈ n :: rest, m ∈ ng.nodes := fun m hm =>
        hperm.mem_iff.1 (List.mem_append_right before hm)
      have hn : n ∈ ng.nodes := hmem n (List.mem_cons_self ..)
      have htail : Ordered (rest.map (ng.stage g options)) := by
        rw [List.append_cons] at hperm hfollows hnodup
        exact ih (before ++ [n]) hperm hfollows hnodup
      rw [List.map_append] at hnodup
      obtain ⟨-, hlater, hapart⟩ := List.nodup_append.1 hnodup
      refine Ordered.cons ?_ ?_ htail
      · intro r hwrites _ hstage hwrites'
        obtain ⟨m, hm, rfl⟩ := List.mem_map.1 hstage
        have hid := h.id_eq_of_writesTo hfits hfed hn (hmem m (List.mem_cons_of_mem n hm)) hwrites
          hwrites'
        rw [List.map_cons, hid] at hlater
        exact (List.nodup_cons.1 hlater).1 (List.mem_map_of_mem hm)
      · intro r hreads _ hstage hwrites
        rw [← List.map_cons] at hstage
        obtain ⟨m, hm, rfl⟩ := List.mem_map.1 hstage
        obtain ⟨l, hl, hfrom, hto⟩ := h.exists_link_of_writesTo hfits hn (hmem m hm) hreads hwrites
        have hbefore := hfollows (before.map Node.id) n.id (rest.map Node.id) (by simp) l hl hto
        rw [hfrom] at hbefore
        exact hapart m.id hbefore m.id (List.mem_map_of_mem hm) rfl

/-- In an order that follows the links, the stages of the nodes can run. -/
theorem Represents.ordered_stages (hfed : g.SingleFed) {ns : List Node}
    (hperm : ns.Perm ng.nodes) (hfollows : g.Follows (ns.map Node.id)) :
    Ordered (ns.map (ng.stage g options)) :=
  h.ordered_suffix hfits hfed [] ns hperm hfollows

end

theorem Compiles.follows (h : ng.Compiles g options order p)
    (hrepresents : ng.Represents catalog g) : g.Follows (p.stages.map Stage.node) := by
  obtain ⟨hids, htopological, -⟩ := h.exists_isTopological hrepresents
  rw [← hids]
  exact htopological.follows

/-- The stages of a compiled graph can run in every order that follows the links. -/
theorem Compiles.ordered (h : ng.Compiles g options order p)
    (hrepresents : ng.Represents catalog g) (hfed : g.SingleFed) {stages : List Stage}
    (hperm : stages.Perm p.stages) (hfollows : g.Follows (stages.map Stage.node)) :
    Ordered stages := by
  obtain ⟨is, his, rfl⟩ := exists_pick_of_perm hperm
  rw [h.stages_eq, List.length_map] at his
  rw [h.stages_eq, pick_map] at hfollows ⊢
  refine hrepresents.ordered_stages h.fits hfed ((pick_perm his).trans h.pick_nodes_perm) ?_
  rwa [List.map_map] at hfollows

end Plan.NodeGraph

namespace Plan

open Artifact

/-- In a compiled graph in which no slot is the target of two links, the stages may run in any order
in which each node follows those it has links from. If they run in the order of the schedule, they
run in every such order, each with the same arguments; the outputs are the same, and on every
channel the same is reported, up to order. -/
theorem reordered_process (start : Register) (catalog : Catalog) (g : Graph)
    (options : ExportOptions) (p : Plan) (h : compileFrom start catalog g options = .ok p)
    (hfed : g.SingleFed) (stages : List Stage) (hperm : stages.Perm p.stages)
    (hfollows : g.Follows (stages.map Stage.node)) (a a' : Artifact) (ha : a.plan = p)
    (ha' : a'.plan = { p with stages }) (params : Params) (s t : Store) (ui : UiMap)
    (hs : Store.seed p.inputs params = .ok s)
    (hrun : (processStages p.stages s .empty).outcome = .ok (t, ui)) :
    ∃ t' ui', (processStages stages s .empty).outcome = .ok (t', ui') ∧
      (Call.reached ⟨a', .invoke, params⟩).Perm (Call.reached ⟨a, .invoke, params⟩) ∧
      (a.process params).outcome = (readOutputs t p.outputs).map (fun values => ⟨values, ui⟩) ∧
      (a'.process params).outcome = (readOutputs t p.outputs).map (fun values => ⟨values, ui'⟩) ∧
      ui.Rearranges ui' := by
  subst ha
  obtain ⟨ng, order, -, hrepresents, hcompiles⟩ := compiles_of_compileFrom_eq_ok h
  have hordered := hcompiles.ordered hrepresents hfed (List.Perm.refl _)
    (hcompiles.follows hrepresents)
  have hordered' := hcompiles.ordered hrepresents hfed hperm hfollows
  obtain ⟨t', ui', hrun', hagrees, hui, hreached⟩ :=
    processStages_reorder hordered hordered' hperm hrun
  have hs' : Store.seed a'.plan.inputs params = .ok s := by rw [ha']; exact hs
  have hstages : (processStages a'.plan.stages s .empty).outcome = .ok (t', ui') := by
    rw [ha']
    exact hrun'
  refine ⟨t', ui', hrun', ?_, outcome_process hs hrun, ?_, hui⟩
  · rw [Call.reached_of_seed (c := ⟨a, .invoke, params⟩) hs,
      Call.reached_of_seed (c := ⟨a', .invoke, params⟩) hs', ha']
    exact hreached
  · rw [outcome_process hs' hstages, ha', readOutputs_congr hagrees]

/-- The relay that nothing is linked to may run first. -/
theorem relays_reordered_process :
    ∃ p, compileFrom .first relayCatalog relayGraph .default = .ok p ∧
      relayGraph.SingleFed ∧ (p.stages.rotate 2).Perm p.stages ∧
      (p.stages.rotate 2).map Stage.node = [⟨"spare"⟩, ⟨"early"⟩, ⟨"late"⟩] ∧
      relayGraph.Follows ((p.stages.rotate 2).map Stage.node) ∧
      ∃ ui, ((Artifact.ofPlan "reordered" { p with stages := p.stages.rotate 2 }).process
          (.ofList [("value", .string "a"), ("value_2", .string "b")])).outcome =
        .ok ⟨[.string "a", .string "b"], ui⟩ := by
  have hfollows : relayGraph.Follows [⟨"spare"⟩, ⟨"early"⟩, ⟨"late"⟩] := by
    rintro before id after hsplit l hl rfl
    obtain rfl := List.mem_singleton.1 hl
    rcases before with _ | ⟨a, _ | ⟨b, _ | ⟨c, before⟩⟩⟩ <;> simp_all
  obtain ⟨_, ui, -, -, -, hprocess, -⟩ :=
    reordered_process .first relayCatalog relayGraph .default _ rfl (by decide) _
      (List.rotate_perm _ 2) hfollows (Artifact.ofPlan "relays" _) (Artifact.ofPlan "reordered" _)
      rfl rfl (.ofList [("value", .string "a"), ("value_2", .string "b")]) _ _ _ rfl rfl
  exact ⟨_, rfl, by decide, List.rotate_perm _ 2, rfl, hfollows, ui, hprocess⟩

end Plan

end StepGraph
