import Emend.CommandLine.Arguments
import Emend.Session
import Emend.Shell.Program
import Emend.Source.Export

/-!
# The command line

The commands print sources, edit and emit them, look classes up, and check files.
A command is a function of the files and its arguments; it gives the files
afterwards, what it prints, and a status: zero for success, one for an error, two
for arguments that make no sense.
-/

set_option autoImplicit false

namespace Emend

inductive Action where
  | print (asJson : Bool) (origins : List Origin)
  | apply (origins : List Origin) (mutations : List Mutation) (mode : EmitMode)
  | resolve (name : String)
  /-- Print the classes inside a namespace. -/
  | classes (space : String)
  | check (path : String)
  | help
  deriving Inhabited

/-- A command with the options of all commands. -/
structure Invocation where
  config : Option String
  root : Option String
  action : Action
  deriving Inhabited

structure CommandResult where
  tree : FileTree
  status : Nat
  output : String
  errors : String

namespace CommandLine

/-! ## Arguments -/

def commonOptions : List OptionSpec :=
  [⟨"config", some 'c', .path⟩, ⟨"root", none, .path⟩, ⟨"verbose", some 'v', .counter⟩]

/-- What may stand in front of a command. -/
def outerScheme : Scheme := ⟨commonOptions, some 0, true⟩

/-- The commands: how many positional values each needs, and what it takes. -/
def schemes : Table (Nat × Scheme) :=
  let values (name : String) : OptionSpec := ⟨name, none, .values⟩
  let switch (name : String) : OptionSpec := ⟨name, none, .switch⟩
  let takes (options : List OptionSpec) (most : Option Nat) : Scheme :=
    ⟨commonOptions ++ options, most, false⟩
  .ofList
    [("print", 1, takes [switch "json"] none),
      ("apply", 1, takes
        [values "import", values "use", values "extends", values "implements", values "doc",
          switch "strict-types", switch "write", switch "both"] none),
      ("resolve", 1, takes [] (some 1)),
      ("classes", 0, takes [] (some 1)),
      ("check", 1, takes [] (some 1))]

/-- The mutations that arguments ask for: imports, trait uses, base types,
interfaces, doc lines, strict types. -/
def mutations (arguments : Arguments) : List Mutation :=
  (arguments.all "import").map .ofImport ++ (arguments.all "use").map .ofUse ++
    (arguments.all "extends").map .ofExtend ++ (arguments.all "implements").map .ofImplement ++
    (arguments.all "doc").map .doc ++
    (if arguments.has "strict-types" then [.strictTypes true] else [])

def action (command : String) (arguments : Arguments) : Except ArgumentStop Action :=
  let origins := arguments.positional.map Origin.ofText
  let first := arguments.positional.headD ""
  match command with
  | "print" => .ok (.print (arguments.has "json") origins)
  | "apply" =>
    if arguments.has "write" && arguments.has "both" then .error .usage
    else
      let mode := if arguments.has "both" then .both
        else if arguments.has "write" then .writeOnly else .returnOnly
      .ok (.apply origins (mutations arguments) mode)
  | "resolve" => .ok (.resolve first)
  | "classes" => .ok (.classes first)
  | "check" => if first.isEmpty then .error .usage else .ok (.check first)
  | _ => .error .usage

def parse (arguments : List String) : Except ArgumentStop Invocation := do
  let (outer, rest) ← Arguments.read outerScheme arguments
  match rest with
  | [] => return ⟨outer.one? "config", outer.one? "root", .help⟩
  | command :: rest =>
    match schemes.get? command with
    | none => throw (if command == "help" then .help else .usage)
    | some (least, scheme) =>
      let (inner, _) ← Arguments.read scheme rest
      if inner.positional.length < least then throw .usage
      return ⟨inner.one? "config" <|> outer.one? "config", inner.one? "root" <|> outer.one? "root",
        ← action command inner⟩

/-! ## Texts -/

def version : String := "scribe 0.1.0\n"

def help : String :=
"Structural PHP source mutation with toolchain validation

Usage: scribe [OPTIONS] [COMMAND]

Commands:
  print    Load sources and print them canonically
  apply    Apply mutations, validate, and emit
  resolve  Show the file registered for a class
  classes  List manifest entries inside a namespace
  check    Run the syntax checker on a file
  help     Print this message or the help of the given subcommand(s)

Options:
  -c, --config <config>  Configuration file (TOML)
      --root <root>      Project root holding composer.json
  -v, --verbose...       Log debug output
  -h, --help             Print help
  -V, --version          Print version
"

def errorText (contexts : List String) (text : String) : String :=
  "error: " ++ ": ".intercalate (contexts ++ [text]) ++ "\n"

/-! ## Running -/

/-- What a command gives: what it prints, or the text of its error. -/
abbrev Answer := FileTree × Except String String

/-- An answer without a change of files. -/
def answer {α : Type} (tree : FileTree) (contexts : List String) (result : Except Error α)
    (f : α → Answer) : Answer :=
  match result with
  | .ok value => f value
  | .error error => (tree, .error (errorText contexts error.chain))

def manifest (tree : FileTree) (settings : Settings) : Except Error Manifest :=
  let root := settings.manifest.root
  let built := match settings.manifest.classMap with
    | some path => Manifest.readClassMap tree (Path.join root path)
    | none => Manifest.ofProject tree root
  built.mapError .manifest

/-- The manifest for some origins, which need none if they are all paths. -/
def manifestFor (tree : FileTree) (settings : Settings) (origins : List Origin) :
    Except Error Manifest :=
  if origins.any Origin.isSymbol then manifest tree settings else .ok .empty

def checker (settings : Settings) : Checker :=
  (⟨settings.checker.program, settings.checker.arguments, settings.checker.timeoutSeconds * 1000,
    some settings.workingDirectory⟩ : Program).toChecker

/-- What is being done while a manifest is built. -/
def buildingManifest : String := "building class manifest"

def runAction (tree : FileTree) (settings : Settings) : Action → Answer
  | .help => (tree, .ok help)
  | .print asJson origins =>
    answer tree [buildingManifest] (manifestFor tree settings origins) fun manifest =>
      answer tree [] (origins.mapM (LoadedUnit.load tree manifest)) fun units =>
        if asJson then
          (tree, .ok (Json.write (.array (units.map fun loaded => loaded.unit.toJson)) ++ "\n"))
        else (tree, .ok (String.join (units.map fun loaded => settings.printer.print loaded.unit)))
  | .apply origins mutations mode =>
    answer tree [buildingManifest] (manifestFor tree settings origins) fun manifest =>
      let (tree, emitted) := Session.process tree origins manifest settings.toValidator
        settings.printer (mutations.map .apply) (checker settings) mode
      answer tree [] emitted fun emission =>
        (tree, .ok (String.join (emission.filterMap (·.contents))))
  | .resolve name =>
    answer tree [buildingManifest] (manifest tree settings) fun manifest =>
      match manifest.get? name with
      | some path => (tree, .ok (path ++ "\n"))
      | none => (tree, .error (errorText [] (name ++ " is not in the class manifest")))
  | .classes space =>
    answer tree [buildingManifest] (manifest tree settings) fun manifest =>
      (tree, .ok (String.join ((manifest.inNamespace space).map fun (name, path) =>
        name ++ "\t" ++ path ++ "\n")))
  | .check path =>
    match tree.read path with
    | .error fault => (tree, .error (errorText ["reading " ++ path] fault.message))
    | .ok text =>
      let (tree, checked) := settings.toValidator.validate (checker settings) tree text
      answer tree [] checked fun _ => (tree, .ok (path ++ ": ok\n"))

def settings (tree : FileTree) (invocation : Invocation) : Except (String × Error) Settings := do
  let loaded ← match invocation.config with
    | some path =>
      (Settings.load tree path).mapError fun error => ("loading configuration from " ++ path, error)
    | none => pure {}
  return match invocation.root with
    | some root => loaded.withRoot root
    | none => loaded

def run (tree : FileTree) (arguments : List String) : CommandResult :=
  match parse arguments with
  | .error .usage =>
    ⟨tree, 2, "", "error: unexpected arguments\n\nFor more information, try '--help'.\n"⟩
  | .error .help => ⟨tree, 0, help, ""⟩
  | .error .version => ⟨tree, 0, version, ""⟩
  | .ok invocation =>
    match settings tree invocation with
    | .error (context, error) => ⟨tree, 1, "", errorText [context] error.chain⟩
    | .ok settings =>
      match runAction tree settings invocation.action with
      | (tree, .ok output) => ⟨tree, 0, output, ""⟩
      | (tree, .error errors) => ⟨tree, 1, "", errors⟩

end CommandLine

end Emend
