import Mathlib.Data.List.Dedup
import StepGraph.Proofs.Dataflow.Naming

/-!
# What an export key addresses

Export options know an output by its key, the id of its node, a space and its name. Two outputs have
one key in two cases: they belong to one node and have one name, or the id of one node goes on,
after a space, with words with which the name of the other output begins, as in `a` with `b INT` and
`a b` with `INT`. `Outlet.Confusable` says so, and nothing in a graph that compiles excludes it:
steps may declare several outputs of one name, and ids may have spaces.

A key addresses one output exactly in graphs without such pairs. There an allow-list exports at most
one output per key, and a new name goes to at most one output.
-/

namespace StepGraph

open Plan

/-- An output of a graph: the id of its node, its number there and what the step declares. -/
structure Outlet where
  node : NodeId
  slot : Nat
  spec : OutputSpec

namespace Outlet

/-- The key by which options know the output. -/
def key (o : Outlet) : String := o.node.text ++ " " ++ o.spec.name

/-- The id of the second node is that of the first one with more words, and the name of the first
output has these words before the name of the second one. -/
def RunsOn (o o' : Outlet) : Prop :=
  ∃ words, o'.node.text = o.node.text ++ " " ++ words ∧ o.spec.name = words ++ " " ++ o'.spec.name

/-- The two outputs read the same once id and name are joined. -/
def Confusable (o o' : Outlet) : Prop :=
  (o.node = o'.node ∧ o.spec.name = o'.spec.name) ∨ o.RunsOn o' ∨ o'.RunsOn o

/-- The name that the output should be exported under. -/
def wantedName (options : ExportOptions) (o : Outlet) : String :=
  (options.renames.find? o.key).getD o.spec.name

variable {o o' : Outlet}

theorem RunsOn.key_eq (h : o.RunsOn o') : o.key = o'.key := by
  obtain ⟨words, hnode, hname⟩ := h
  rw [key, key, hnode, hname]
  simp only [String.append_assoc]

/-- Where the id of the first node is not longer, it is that of the second one or the second one
runs on from it. -/
theorem confusable_of_key_eq {words : List Char} (h : o.key = o'.key)
    (hnode : o'.node.text.toList = o.node.text.toList ++ words) : o.Confusable o' := by
  have hspace : " ".toList = [' '] := rfl
  have hkeys := congrArg String.toList h
  simp only [key, String.toList_append, hspace, hnode, List.append_assoc] at hkeys
  have hrest := List.append_cancel_left hkeys
  cases words with
  | nil =>
      have hname := List.append_cancel_left hrest
      rw [List.append_nil] at hnode
      refine .inl ⟨?_, String.toList_inj.1 hname⟩
      exact congrArg NodeId.mk (String.toList_inj.1 hnode.symm)
  | cons c words =>
      obtain ⟨rfl, hname⟩ := List.cons.inj hrest
      refine .inr (.inl ⟨String.ofList words, ?_, ?_⟩)
      · refine String.toList_inj.1 ?_
        simp [hnode]
      · refine String.toList_inj.1 ?_
        simpa using hname

theorem Confusable.symm (h : o.Confusable o') : o'.Confusable o := by
  rcases h with ⟨hnode, hname⟩ | h | h
  · exact .inl ⟨hnode.symm, hname.symm⟩
  · exact .inr (.inr h)
  · exact .inr (.inl h)

theorem key_eq_key_iff : o.key = o'.key ↔ o.Confusable o' := by
  constructor
  · intro h
    have hkeys := congrArg String.toList h
    simp only [key, String.toList_append, List.append_assoc] at hkeys
    -- of two texts that begin the same key one is a prefix of the other
    rcases List.append_eq_append_iff.1 hkeys with ⟨words, hnode, -⟩ | ⟨words, hnode, -⟩
    · exact confusable_of_key_eq h hnode
    · exact (confusable_of_key_eq h.symm hnode).symm
  · rintro (⟨hnode, hname⟩ | h | h)
    · rw [key, key, hnode, hname]
    · exact h.key_eq
    · exact h.key_eq.symm

end Outlet

namespace Graph

variable (catalog : Catalog) (g : Graph) (options : ExportOptions)

/-- The outputs of the nodes, which stand by their ranks. -/
def outlets : List Outlet :=
  (g.arranged catalog).flatMap fun v => v.step.outputs.zipIdx.map fun e => ⟨v.id, e.2, e.1⟩

/-- The outputs that the options export. -/
def exportedOutlets : List Outlet :=
  (g.outlets catalog).filter fun o => g.isExported options o.node o.slot o.spec.name

/-- A key addresses one output: the exported outputs of the plan are no more than the keys allowed,
and no new name is meant for two of them. -/
structure KeysAddress (p : Plan) : Prop where
  distinct : ((g.outlets catalog).map Outlet.key).Nodup
  allowed : ∀ keys, options.allowed = some keys → p.outputs.length ≤ keys.dedup.length
  renamed : ∀ e ∈ options.renames.entries,
    (((g.exportedOutlets catalog options).zip p.outputs).filter fun x => x.1.key = e.1).length ≤ 1

variable {catalog g options}

theorem map_exportedOutlets :
    (g.exportedOutlets catalog options).map (fun o => (o.node, o.slot, o.wantedName options)) =
      g.exportedOutputs catalog options := by
  rw [exportedOutlets, outlets, exportedOutputs, List.filter_flatMap, List.map_flatMap]
  refine List.flatMap_congr fun v _ => ?_
  rw [List.filter_map, List.map_map]
  rfl

theorem exportedOutlets_of_allowed {keys : List String} (h : options.allowed = some keys) :
    g.exportedOutlets catalog options = (g.outlets catalog).filter fun o => o.key ∈ keys := by
  rw [exportedOutlets]
  refine List.filter_congr fun o _ => ?_
  rw [Bool.eq_iff_iff, decide_eq_true_iff]
  simp only [isExported, h, List.contains_iff_mem]
  exact Iff.rfl

theorem nodup_keys_iff :
    ((g.outlets catalog).map Outlet.key).Nodup ↔
      (g.outlets catalog).Pairwise fun o o' => ¬ o.Confusable o' := by
  rw [List.Nodup, List.pairwise_map]
  simp only [← Outlet.key_eq_key_iff, ne_eq]

end Graph

namespace Plan

variable {start : Register} {catalog : Catalog} {g : Graph} {options : ExportOptions} {p : Plan}

/-- The exported outputs are named one after the other as the options want. -/
theorem namedInTurn_exportedOutlets (h : compileFrom start catalog g options = .ok p) :
    NamedInTurn ((g.exportedOutlets catalog options).map (Outlet.wantedName options))
      (p.outputs.map ExportedOutput.name) := by
  obtain ⟨ng, order, -, hrepresents, hcompiles⟩ := compiles_of_compileFrom_eq_ok h
  have hwanted : (g.exportedOutlets catalog options).map (Outlet.wantedName options) =
      (g.exportedOutputs catalog options).map fun e => e.2.2 := by
    rw [← Graph.map_exportedOutlets, List.map_map]
    rfl
  have hnames : p.outputs.map ExportedOutput.name = g.outputNames catalog options := by
    rw [hcompiles.outputs, List.map_map]
    exact hrepresents.map_name_exports
  rw [hnames, hwanted]
  exact namedInTurn_exportNames _

/-- Keys that differ are as many as the outputs they export, and a new name is for one of them. -/
theorem keysAddress_of_nodup (h : compileFrom start catalog g options = .ok p)
    (hkeys : ((g.outlets catalog).map Outlet.key).Nodup) : g.KeysAddress catalog options p := by
  have hlength : p.outputs.length = (g.exportedOutlets catalog options).length := by
    have hlengths := (namedInTurn_exportedOutlets h).length
    rwa [List.length_map, List.length_map] at hlengths
  have hexported : ((g.exportedOutlets catalog options).map Outlet.key).Nodup :=
    hkeys.sublist (List.filter_sublist.map _)
  constructor
  case distinct => exact hkeys
  case allowed =>
    intro keys hallowed
    have hsub : (g.exportedOutlets catalog options).map Outlet.key ⊆ keys.dedup := by
      rw [Graph.exportedOutlets_of_allowed hallowed]
      intro key hkey
      obtain ⟨o, ho, rfl⟩ := List.mem_map.1 hkey
      exact List.mem_dedup.2 (of_decide_eq_true (List.mem_filter.1 ho).2)
    have hle := (List.subperm_of_subset hexported hsub).length_le
    rwa [List.length_map, ← hlength] at hle
  case renamed =>
    intro e _
    have hfirst : ((g.exportedOutlets catalog options).zip p.outputs).map (fun x => x.1.key) =
        (g.exportedOutlets catalog options).map Outlet.key := by
      rw [← congrArg (List.map Outlet.key) (List.map_fst_zip (Nat.le_of_eq hlength.symm)),
        List.map_map]
      rfl
    have hcount := List.nodup_iff_count_le_one.1 (hfirst ▸ hexported) e.1
    rwa [List.count, List.countP_map, List.countP_eq_length_filter] at hcount

/-- Two outputs have one key if and only if they are confusable, and if no two are, and only then,
a key addresses one output. -/
theorem compiled_keys_address_iff (start : Register) (catalog : Catalog) (g : Graph)
    (options : ExportOptions) (p : Plan) (h : compileFrom start catalog g options = .ok p) :
    NamedInTurn ((g.exportedOutlets catalog options).map (Outlet.wantedName options))
        (p.outputs.map ExportedOutput.name) ∧
      (∀ o ∈ g.outlets catalog, ∀ o' ∈ g.outlets catalog, o.key = o'.key ↔ o.Confusable o') ∧
      (g.KeysAddress catalog options p ↔
        (g.outlets catalog).Pairwise fun o o' => ¬ o.Confusable o') := by
  refine ⟨namedInTurn_exportedOutlets h, fun o _ o' _ => Outlet.key_eq_key_iff, ?_⟩
  rw [← Graph.nodup_keys_iff]
  exact ⟨fun haddress => haddress.distinct, keysAddress_of_nodup h⟩

/-- Exports the early and the spare relay, the spare one under a new name. -/
def spareRenamed : ExportOptions :=
  ⟨some ["early INT", "spare INT"], .ofList [("spare INT", "rest")]⟩

theorem relay_keys_address :
    ∃ p, compileFrom .first relayCatalog relayGraph spareRenamed = .ok p ∧
      relayGraph.KeysAddress relayCatalog spareRenamed p ∧
      p.outputs.map ExportedOutput.name = ["INT", "rest"] := by
  obtain ⟨-, -, haddress⟩ :=
    compiled_keys_address_iff .first relayCatalog relayGraph spareRenamed _ rfl
  refine ⟨_, rfl, haddress.2 ?_, rfl⟩
  rw [← Graph.nodup_keys_iff]
  decide

/-! ## Keys of several outputs -/

/-- Knows a step with two outputs of one name and a third one, and a step with one output. -/
def pairCatalog : Catalog := fun type =>
  if type = "pair" then
    some { relayStep with outputs := [.ofType "INT", .ofType "INT", ⟨"INT", "b INT"⟩] }
  else if type = "relay" then some relayStep
  else none

/-- The id of the second node is that of the first one with one more word. -/
def pairGraph : Graph where
  nodes := [
    ⟨"pair", some ⟨"a"⟩, none, [], [], .empty⟩,
    ⟨"relay", some ⟨"a b"⟩, none, [], [], .empty⟩]
  links := []
  extra := .empty

/-- Two keys, the second one with a new name. -/
def pairOptions : ExportOptions := ⟨some ["a INT", "a b INT"], .ofList [("a b INT", "sum")]⟩

/-- Two keys export four outputs, and one new name is meant for two of them. -/
theorem pair_keys_ambiguous :
    ∃ p, compileFrom .first pairCatalog pairGraph pairOptions = .ok p ∧
      (pairGraph.outlets pairCatalog).map Outlet.key = ["a INT", "a INT", "a b INT", "a b INT"] ∧
      p.outputs.map ExportedOutput.name = ["INT", "INT_2", "sum", "sum_2"] ∧
      ¬ pairGraph.KeysAddress pairCatalog pairOptions p := by
  refine ⟨_, rfl, rfl, by decide, fun h => ?_⟩
  exact absurd h.distinct (by decide)

end Plan

end StepGraph
