import StepGraph.Proofs.Saving.Clean

/-!
# Templates are read like plain graphs

The text of a graph file is first read as a value and the graph is taken from the value. The text
inside a template is read as a graph at once, with no value in between. As long as no object in the
text repeats a key, nothing gets lost on the way over the value, and both ways give the same graph.
-/

namespace StepGraph.Graph

open Json (Draft)

variable {text container : String}

/-- The text says a value in which no object repeats a key and which is no collection of
templates. -/
structure IsPlain (text : String) : Prop where
  value : ∃ v, Json.read? text = some v ∧ ∀ items, v.field? "templates" ≠ some (.array items)
  distinct : (Json.readDraft text).1.distinct = true

/-- The first one of the templates in the container holds the text. -/
def Holds (container text : String) : Prop :=
  ∃ fields template rest, Json.read? container = some (.object fields) ∧
    Entries.find? "templates" fields = some (.array (.object template :: rest)) ∧
    Entries.find? "data" template = some (.string text)

theorem readDraft_of_read? {v : Json} (h : Json.read? text = some v) :
    ∃ d, Json.readDraft text = (d, true) ∧ d.value? = some v := by
  rw [Json.read?] at h
  split at h
  · next d heq => exact ⟨d, heq, h⟩
  · cases h

/-- A text without repeated keys is read at once as what its value is read as. -/
theorem ofText_eq_ofJson {v : Json} (h : Json.read? text = some v)
    (hdistinct : (Json.readDraft text).1.distinct = true) : ofText text = ofJson v := by
  obtain ⟨d, hdraft, hvalue⟩ := readDraft_of_read? h
  rw [hdraft] at hdistinct
  rw [ofText, hdraft, Draft.eq_draft_of_value? hvalue hdistinct, ofJson]
  simp only [if_true, bind_pure]

/-- Of a repeated field the value keeps the last one, and a graph that is read at once may not
have it. -/
example : (parse "\x7b\"nodes\":[],\"nodes\":[]\x7d").isOk = true ∧
    (ofText "\x7b\"nodes\":[],\"nodes\":[]\x7d").isOk = false := by
  decide +kernel

theorem Holds.parse_eq (h : Holds container text) :
    parse container = (ofText text).mapError .template := by
  obtain ⟨fields, template, rest, hread, htemplates, hdata⟩ := h
  rw [parse, hread]
  simp only [htemplates, ofTemplate, hdata]

/-- A value that is no collection of templates is read as a graph itself. -/
theorem parse_eq_ok_iff {v : Json} (h : Json.read? text = some v)
    (hplain : ∀ items, v.field? "templates" ≠ some (.array items)) {g : Graph} :
    parse text = .ok g ↔ ofJson v = .ok g := by
  rw [parse, h]
  cases v with
  | object fields =>
      cases hfind : Entries.find? "templates" fields with
      | none => simp only [hfind, Except.mapError_eq_ok_iff]
      | some w =>
          cases w with
          | array items => exact absurd hfind (hplain items)
          | _ => simp only [hfind, Except.mapError_eq_ok_iff]
  | _ => exact iff_of_false (fun hparse => by cases hparse) (fun hread => by cases hread)

/-- A text is read as the same graph from a file of its own and from the first template of a
container, whatever else the container holds. -/
theorem parse_container_eq_ok_iff (h : IsPlain text) (hholds : Holds container text) (g : Graph) :
    parse container = .ok g ↔ parse text = .ok g := by
  obtain ⟨⟨v, hread, hplain⟩, hdistinct⟩ := h
  rw [hholds.parse_eq, ofText_eq_ofJson hread hdistinct, Except.mapError_eq_ok_iff,
    parse_eq_ok_iff hread hplain]

/-- Fields in no particular order, some of them unknown to the library. -/
def plainText : String :=
  "\x7b\"version\":4,\"nodes\":[\x7b\"title\":\"in\",\"type\":\"relay\",\"id\":null\x7d]," ++
  "\"templates\":0\x7d"

def plainValue : Json := .object [
  ("version", Json.ofInt 4),
  ("nodes", .array [.object [("title", .string "in"), ("type", .string "relay"), ("id", .null)]]),
  ("templates", Json.ofInt 0)]

def plainGraph : Graph where
  nodes := [⟨"relay", none, none, [], [], .ofList [("title", .string "in")]⟩]
  links := []
  extra := .ofList [("version", Json.ofInt 4), ("templates", Json.ofInt 0)]

/-- A container with the text in the first one of two templates. -/
def containerText : String :=
  "\x7b\"templates\":[\x7b\"name\":\"t\",\"data\":\"\x7b\\\"version\\\":4,\\\"nodes\\\":" ++
  "[\x7b\\\"title\\\":\\\"in\\\",\\\"type\\\":\\\"relay\\\",\\\"id\\\":null\x7d]," ++
  "\\\"templates\\\":0\x7d\"\x7d,1]\x7d"

theorem parse_containerText : IsPlain plainText ∧ Holds containerText plainText ∧
    parse plainText = .ok plainGraph ∧ parse containerText = .ok plainGraph := by
  have hplain : IsPlain plainText := by
    have htemplates : plainValue.field? "templates" = some (Json.ofInt 0) := by decide +kernel
    refine ⟨⟨plainValue, by decide +kernel, fun items hitems => ?_⟩, by decide +kernel⟩
    rw [htemplates] at hitems
    cases hitems
  have hholds : Holds containerText plainText := by
    have hread : Json.read? containerText = some (.object [("templates", .array [
        .object [("name", .string "t"), ("data", .string plainText)], Json.ofInt 1])]) := by
      decide +kernel
    exact ⟨_, [("name", .string "t"), ("data", .string plainText)], [Json.ofInt 1], hread,
      by decide +kernel, by decide +kernel⟩
  have hparse : parse plainText = .ok plainGraph := Except.eq_ok_of_toOption (by decide +kernel)
  exact ⟨hplain, hholds, hparse, (parse_container_eq_ok_iff hplain hholds plainGraph).2 hparse⟩

end StepGraph.Graph
