import Mathlib.Data.List.Forall2
import Zakuro.InstanceReading

/-!
# The config file and the command line

With `--config` the program makes the arguments of every copy of every instance
anew, the common ones first and those of the command line last, and parses them
again. A configuration is known here by the options that it was parsed from.
-/

namespace Util

open ArgReader

/-! ## Main -/

section Main

variable (serialize : Json → String)

/-- A value of the file that becomes an option common to all instances. -/
def commonOption (zakuro : Members) (key : String) : Given :=
  match zakuro.lookup key with
  | some value => [("--" ++ key, [primitiveValueToString serialize value])]
  | none => []

/-- The options that are common to all instances; `ui` has to be a bool. -/
def commonGiven (zakuro : Members) : Option Given :=
  let ui : Option Given :=
    match zakuro.lookup "ui" with
    | none => some []
    | some (.bool true) => some [("--ui", [])]
    | some (.bool false) => some []
    | some _ => none
  ui.map fun ui =>
    ["log-level", "http-port", "http-host"].flatMap (commonOption serialize zakuro) ++ ui ++
      ["ui-remote-url", "output-file-connection-id", "instance-hatch-rate"].flatMap
        (commonOption serialize zakuro)

/-- The command line without `--config`, in a state that skips the next token or
does not. -/
def postArgs : Bool → List String → List String
  | _, [] => []
  | true, _ :: tokens => postArgs false tokens
  | false, token :: tokens =>
    if token = "--config" then postArgs true tokens
    else if "--config=".toList.isPrefixOf token.toList then postArgs false tokens
    else token :: postArgs false tokens

/-- The argument lists that a config file and a command line make. -/
def fileArgs (zakuro : Members) (args : List String) : Option (List (List String)) := do
  let common ← commonGiven serialize zakuro
  match zakuro.lookup "instances" with
  | some (.array instances) =>
    if instances.isEmpty then none
    else
      let argss ← instances.mapM (parseInstanceToArgs serialize)
      some (argss.flatten.map fun args' => unread common ++ args' ++ postArgs false args)
  | _ => none

/-- `ParseArgs`, without a result when it ends the program: what is read has to
pass the checks of its options and those behind `app.parse`, which depend on
whether the config file is to be ignored. -/
def parseArgs (accepts : Bool → Given → Bool) (ignoreConfig : Bool) (args : List String) :
    Option Given :=
  (readArgs optionKind args).filter (accepts ignoreConfig)

/-- `config_file` -/
def configFile (given : Given) : String :=
  match takeLast given "--config" with
  | some [path] => path
  | _ => ""

/-- The configurations that `main` makes, if it gets to the end of them. -/
def mainConfigs (load : String → Option Json) (accepts : Bool → Given → Bool)
    (args : List String) : Option (List Given) := do
  let given ← parseArgs accepts false args
  if configFile given = "" then some [given]
  else
    match ← load (configFile given) with
    | .object zakuro => (← fileArgs serialize zakuro args).mapM (parseArgs accepts true)
    | _ => none

end Main

/-! ## What a configuration takes from where -/

/-- The options with values that there is one of in the whole application. -/
def commonOptions : List String :=
  ["--config", "--log-level", "--http-host", "--http-port", "--ui-remote-url",
    "--output-file-connection-id", "--instance-hatch-rate"]

/-- The options with values that are set for one instance. -/
def instanceOptions : List String :=
  (singleOptions ++ manyOptions).filter (· ∉ commonOptions)

/-- The values that are kept of an option, `take_last` or `take_all`. -/
def setting (given : Given) (name : String) : Option (List String) :=
  if optionKind name = some .many then takeAll given name else takeLast given name

/-- The configuration has the values of the command line, and for options that
are not there those of the file. -/
def Overrides (commandLine file config : Given) : Prop :=
  ∀ name ∈ instanceOptions,
    setting config name = (setting commandLine name).or (setting file name)

/-- The options that the file has for each copy of an instance. -/
def copiesGiven (serialize : Json → String) : Json → List Given
  | .object obj =>
    match instanceNum obj with
    | some num => (List.range num.toNat).map (instanceGiven serialize obj)
    | none => []
  | _ => []

/-- The options that the file has for each copy of each of its instances. -/
def fileGiven (serialize : Json → String) (instances : List Json) : List Given :=
  instances.flatMap (copiesGiven serialize)

end Util
