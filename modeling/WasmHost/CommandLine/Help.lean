import WasmHost.CommandLine.Arguments

/-!
# Help

The texts that explain the command line. Entries of a list are aligned on the longest one.
-/

namespace WasmHost.CommandLine

/-- A list of entries with their explanations, under a heading. -/
def section_ (heading : String) (entries : List (String × String)) : List String :=
  let width := (entries.map fun e => e.1.length).foldl max 0
  let line (e : String × String) : String :=
    "  " ++ e.1 ++ String.ofList (List.replicate (width - e.1.length) ' ') ++ "  " ++ e.2
  "" :: heading :: entries.map line

/-- What is said of the module. -/
def moduleHelp : String := "Path to a \x60.wasm\x60 or \x60.wat\x60 module"

/-- What is said of the help. -/
def helpHelp : String × String := ("-h, --help", "Print help")

/-- What a command is for. -/
def Topic.about : Topic → String
  | program => "WebAssembly embedding bridge"
  | run => "Instantiate a module and optionally invoke an export"
  | inspect => "Print a module's imports and exports"
  | help => "Print this message or the help of the given subcommand(s)"

/-- The lines of a help text. The environment may name a configuration file. -/
def helpLines (env : Option String) : Topic → List String
  | .program =>
    [Topic.about .program, "", "Usage: wasmbridge <COMMAND>"] ++
      section_ "Commands:" (Topic.commands.map fun t => (t.word, t.about)) ++
      section_ "Options:" [helpHelp, ("-V, --version", "Print version")]
  | .run =>
    [Topic.about .run, "", "Usage: wasmbridge run [OPTIONS] <MODULE> [ARGS]..."] ++
      section_ "Arguments:"
        [("<MODULE>", moduleHelp),
          ("[ARGS]...", "Arguments for the invoked export, parsed by its parameter kinds")] ++
      section_ "Options:"
        [("    " ++ OptionName.config.label,
            "TOML configuration file [env: WASMBRIDGE_CONFIG=" ++ env.getD "" ++ "]"),
          ("    " ++ OptionName.invoke.label, "Export to invoke after instantiation"),
          ("    " ++ OptionName.fuel.label,
            "Fuel available to the module; enables fuel metering"),
          helpHelp]
  | .inspect =>
    [Topic.about .inspect, "", "Usage: wasmbridge inspect <MODULE>"] ++
      section_ "Arguments:" [("<MODULE>", moduleHelp)] ++
      section_ "Options:" [helpHelp]
  | .help =>
    [Topic.about .help, "", "Usage: wasmbridge help [COMMAND]..."] ++
      section_ "Arguments:" [("[COMMAND]...", "Print help for the subcommand(s)")]

/-- A help text. -/
def helpText (env : Option String) (t : Topic) : String :=
  String.join ((helpLines env t).map (· ++ "\n"))

end WasmHost.CommandLine
