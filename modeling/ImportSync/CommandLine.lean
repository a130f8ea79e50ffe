import ImportSync.Report
import ImportSync.Settings.Load

/-!
The command line: `sync` runs a synchronisation, and `hook` does so at a stage of a build. What a
command prints and the code it exits with are computed here, from the tokens and a file tree.
-/

namespace ImportSync

def Arguments.runWith (a : Arguments) (run : Settings → FileTree → SyncOutput) (tree : FileTree) :
    SyncOutput :=
  match a.load tree with
  | .error e => { tree, warnings := [], result := .error e }
  | .ok (s, warnings) =>
    let output := run s tree
    { output with warnings := warnings ++ output.warnings }

def Stage.ofText? (t : Text) : Option Stage :=
  if t = "pre-init".toList then some .preInit
  else if t = "pre-extract-queries".toList then some .preExtractQueries
  else none

namespace CommandLine

inductive Command where
  | sync (arguments : Arguments)
  | hook (stage : Stage) (arguments : Arguments)
  deriving DecidableEq, Repr

def Command.arguments : Command → Arguments
  | .sync a => a
  | .hook _ a => a

/-- Why a command line is rejected; asking for help is among the reasons. -/
inductive Rejection where
  | unknownCommand
  | missingCommand
  | missingStage
  | unknownStage
  | badArguments (cause : ArgumentError)
  deriving DecidableEq, Repr

/-- The tokens that ask for help in place of a command. -/
def helpTokens : List Text := ["-h".toList, "--help".toList, "help".toList]

def Command.ofTokens : List Text → Except Rejection Command
  | [] => .error .missingCommand
  | name :: tokens =>
    if name = "sync".toList then
      match Arguments.ofTokens tokens with
      | .ok a => .ok (.sync a)
      | .error e => .error (.badArguments e)
    else if name = "hook".toList then
      match Arguments.ofTokensWith 1 tokens with
      | .ok (a, [stage]) =>
        match Stage.ofText? stage with
        | some stage => .ok (.hook stage a)
        | none => .error .unknownStage
      | .ok _ => .error .missingStage
      | .error e => .error (.badArguments e)
    else if helpTokens.contains name then
      .error (.badArguments .displayHelp)
    else
      .error .unknownCommand

structure Output where
  tree : FileTree
  exitCode : Nat
  standardOut : Text := []
  standardError : Text := []

def usage : Text :=
  "Usage: sync [options]\n       hook <stage> [options]\n".toList

def Rejection.output (tree : FileTree) (r : Rejection) : Output :=
  match r with
  | .badArguments .displayHelp => { tree, exitCode := 0, standardOut := usage }
  | _ => { tree, exitCode := 2, standardError := usage }

def Command.run (tools : Tools) (tree : FileTree) : Command → SyncOutput
  | .sync a => a.runWith (ImportSync.sync tools) tree
  | .hook stage a => a.runWith (runStage stage tools) tree

/-- What a command leaves behind that ran a synchronisation. The exit code tells whether it failed or
files are out of date. -/
def Output.ofSync (elapsed threads : Nat) (done : SyncOutput) : Output :=
  match done.result with
  | .error e =>
    { tree := done.tree
      exitCode := 1
      standardError := "Error: ".toList ++ e.message ++ ['\n'] }
  | .ok r =>
    { tree := done.tree
      exitCode := if r.isOutOfDate then 1 else 0
      standardOut := Report.summary false done.tree.workingPath r
        ++ Report.finished false elapsed threads r }

def run (tools : Tools) (elapsed threads : Nat) (tree : FileTree) (tokens : List Text) : Output :=
  match Command.ofTokens tokens with
  | .ok c => .ofSync elapsed threads (c.run tools tree)
  | .error r => r.output tree

end CommandLine

end ImportSync
