/-!
# The workflow allowlist

`app/domain/jobs/workflow_registry.py`: the workflows a job may name, and the
backend each of them runs on.  The graph templates are empty placeholders in
the source that nothing reads, and are left out.
-/

namespace Imagin4.Ports

/-- The two generation backends. -/
inductive Backend where
  | comfyui
  | gemini
deriving DecidableEq, Repr

/-- `WorkflowDefinition`. -/
structure WorkflowDefinition where
  name : String
  version : String
  modelFamily : String
  backend : Backend := .comfyui

/-- `_REGISTRY`, in insertion order. -/
def registry : List WorkflowDefinition :=
  [{ name := "txt2img_basic", version := "v1", modelFamily := "sdxl" },
   { name := "img2img_basic", version := "v1", modelFamily := "sdxl" },
   { name := "image_basic", version := "v1", modelFamily := "sdxl" },
   { name := "poster_infographic", version := "v1",
     modelFamily := "gemini-image", backend := .gemini }]

/-- `resolve_workflow`; `none` is `UnknownWorkflowError`. -/
def resolveWorkflow (name version : String) : Option WorkflowDefinition :=
  registry.find? (fun w => w.name = name ∧ w.version = version)

/-- `backend_for_kind`. -/
def backendForKind (kind : String) : Option Backend :=
  (registry.find? (fun w => w.name = kind)).map (·.backend)

/-- `kinds_for_backend`. -/
def kindsForBackend (backend : Backend) : List String :=
  (registry.filter (fun w => w.backend = backend)).map (·.name)

/-- A workflow that is found has the backend of its kind, and a kind of its lane. -/
theorem backend_of_resolveWorkflow {name version : String}
    {workflow : WorkflowDefinition}
    (h : resolveWorkflow name version = some workflow) :
    backendForKind name = some workflow.backend ∧
      name ∈ kindsForBackend workflow.backend := by
  have hname : workflow.name = name := by
    have hfound := List.find?_some h
    simp only [decide_eq_true_eq] at hfound
    exact hfound.1
  have hall : ∀ w ∈ registry, backendForKind w.name = some w.backend ∧
      w.name ∈ kindsForBackend w.backend := by decide
  rw [← hname]
  exact hall workflow (List.mem_of_find?_eq_some h)

/-- The two lanes have no kind in common. -/
theorem kindsForBackend_disjoint {kind : String} {b c : Backend}
    (hb : kind ∈ kindsForBackend b) (hc : kind ∈ kindsForBackend c) :
    b = c := by
  have hcomfy : kindsForBackend .comfyui =
      ["txt2img_basic", "img2img_basic", "image_basic"] := by decide
  have hgemini : kindsForBackend .gemini = ["poster_infographic"] := by decide
  cases b <;> cases c <;> try rfl
  all_goals
    rw [hcomfy] at *
    rw [hgemini] at *
    simp only [List.mem_cons, List.not_mem_nil, or_false] at hb hc
    rcases hb with rfl | rfl | rfl <;> simp at hc

end Imagin4.Ports
