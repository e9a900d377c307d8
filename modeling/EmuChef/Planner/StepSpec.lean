import EmuChef.Planner.Recipe

/-! The contracts of the step types: their outputs, parameters, defaults and app contexts, and
the value types of references. -/

namespace EmuChef.Planner

inductive AppContextRequirement where
  | none
  | optional
  | required
  deriving DecidableEq

structure StepOutput where
  name : String
  valueType : String
  primary : Bool
  deriving DecidableEq

structure StepParam where
  acceptedSources : List String
  acceptedValueTypes : List String
  deriving DecidableEq

structure StepSpec where
  typeName : String
  appContext : AppContextRequirement
  primaryOutputName : Option String
  outputs : List StepOutput
  params : List (String × StepParam)
  defaults : List (String × Json)

def stepAppContext (typeName : String) : AppContextRequirement :=
  match typeName with
  | "install_apk" | "grant_permissions" | "launch_app" | "force_stop_app" => .required
  | "copy_files" | "package_installed" => .optional
  | _ => .none

def spec (typeName : String) (primaryOutputName : Option String) (outputs : List StepOutput)
    (params : List (String × StepParam)) (defaults : List (String × Json)) : StepSpec :=
  ⟨typeName, stepAppContext typeName, primaryOutputName, outputs, params, defaults⟩

def artifactListParams : List (String × StepParam) :=
  [("artifact_groups", ⟨["literal"], ["string_list"]⟩),
    ("artifacts", ⟨["literal"], ["string_list"]⟩)]

def stepSpecs : List StepSpec :=
  [spec "download_remote_file" (some "local_path")
      [⟨"local_path", "file_path", true⟩, ⟨"filename", "string", false⟩]
      [("cache", ⟨["literal"], ["string"]⟩), ("url", ⟨["literal", "step_output_ref"], ["string"]⟩)]
      [("cache", .string "default")],
    spec "resolve_artifacts" none [] artifactListParams [],
    spec "extract_artifacts" (some "extracted_paths") [⟨"extracted_paths", "path_list", true⟩]
      (artifactListParams ++ [("extract_on", ⟨["literal"], ["string"]⟩)])
      [("extract_on", .string "host")],
    spec "extract_archive" (some "extracted_path") [⟨"extracted_path", "directory_path", true⟩]
      [("archive", ⟨["input_ref", "artifact_ref", "step_output_ref"], ["file_path"]⟩),
        ("cleanup", ⟨["literal"], ["boolean"]⟩), ("dest", ⟨["literal"], ["string"]⟩),
        ("device_temp_path", ⟨["literal"], ["device_path"]⟩),
        ("extract_on", ⟨["literal"], ["string"]⟩)]
      [("cleanup", .bool true), ("extract_on", .string "host")],
    spec "copy_files" (some "copied_paths") [⟨"copied_paths", "path_list", true⟩]
      [("copy_policy", ⟨["literal", "input_ref"], ["string"]⟩),
        ("dest", ⟨["literal", "input_ref", "app_target"], ["device_path"]⟩),
        ("source", ⟨["input_ref", "artifact_ref", "step_output_ref"],
          ["file_path", "directory_path", "path_list"]⟩)]
      [("copy_policy", .string "merge")],
    spec "install_apk" none []
      [("app", ⟨["artifact_ref"], ["file_path"]⟩),
        ("replace_existing", ⟨["literal"], ["boolean"]⟩)]
      [("replace_existing", .bool false)],
    spec "grant_permissions" none []
      [("permission_set", ⟨["literal"], ["string"]⟩), ("policy", ⟨["literal"], ["object"]⟩)] [],
    spec "launch_app" none [] [] [],
    spec "wait" none [] [("duration_ms", ⟨["literal"], ["integer"]⟩)] [],
    spec "force_stop_app" none [] [] []]

def stepSpecFor (typeName : String) : Option StepSpec :=
  stepSpecs.find? fun spec => spec.typeName = typeName

def StepSpec.param? (spec : StepSpec) (name : String) : Option StepParam :=
  (spec.params.find? fun entry => entry.1 = name).map Prod.snd

def StepSpec.output? (spec : StepSpec) (name : String) : Option StepOutput :=
  spec.outputs.find? fun output => output.name = name

theorem primaryOutput_declared {typeName name : String} {spec : StepSpec}
    (found : stepSpecFor typeName = some spec) (primary : spec.primaryOutputName = some name) :
    (spec.output? name).isSome = true := by
  have all : ∀ spec ∈ stepSpecs, ∀ name ∈ spec.primaryOutputName,
      (spec.output? name).isSome = true := by decide
  exact all spec (List.mem_of_find?_eq_some found) name primary

def RuntimeRef.sourceKind : RuntimeRef → String
  | .input _ => "input_ref"
  | .artifactField _ _ => "artifact_ref"
  | .stepShorthand _ | .stepOutput _ _ => "step_output_ref"

def runtimeArtifactFields : List String :=
  ["cache_hit", "error", "filename", "local_path", "resolved_url", "status"]

def inputValueType (typeName : String) (multiple : Bool) : String :=
  if multiple then
    match typeName with
    | "string" | "enum" => "string_list"
    | _ => "path_list"
  else
    match typeName with
    | "directory" => "directory_path"
    | "file" => "file_path"
    | "device_path" => "device_path"
    | "path" => "path"
    | "string_list" => "string_list"
    | "path_list" => "path_list"
    | "integer" => "integer"
    | "boolean" => "boolean"
    | "object" => "object"
    | "string" | "enum" => "string"
    | _ => "file_path"

def artifactFieldValueType (field : String) : Option String :=
  match field with
  | "cache_hit" => some "boolean"
  | "local_path" => some "file_path"
  | "error" | "filename" | "resolved_url" | "status" => some "string"
  | _ => none

end EmuChef.Planner
