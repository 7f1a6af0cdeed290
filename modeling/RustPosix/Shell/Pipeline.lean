import RustPosix.Posix.DescriptorTable

/-! The pipelines of `userland/shell/src/pipeline.rs`. A C string is the list of its bytes before
the zero, an array of pointers the list of the strings in it. -/

namespace RustPosix.Posix.FileWorld

/-- A call of the process `pid`. -/
def call (world : FileWorld) (pid : Nat) (made : DescriptorCall) : FdAnswer × FileWorld :=
  match world.procs[pid]? with
  | none => (⟨0, []⟩, world)
  | some proc => world.serve pid proc made

/-- The state after a call whose result is not looked at. -/
def did (world : FileWorld) (pid : Nat) (made : DescriptorCall) : FileWorld :=
  (world.call pid made).2

end RustPosix.Posix.FileWorld

namespace RustPosix.Shell

open Library Vfs Posix

def stdinFileno : Int := 0
def stdoutFileno : Int := 1

def pipeChar : Byte := 0x7C
def lessChar : Byte := 0x3C
def greaterChar : Byte := 0x3E

def isSpaceOrTab (byte : Byte) : Bool := byte = 0x20 || byte = 0x09

def isBlank (byte : Byte) : Bool := isSpaceOrTab byte || byte = 0x0D || byte = 0x0A

/-- `tokenize_line`, with the number of slots that are left. -/
def tokenizeLine : Nat → List Byte → List (List Byte)
  | 0, _ => []
  | slots + 1, line =>
    match line.dropWhile isBlank with
    | [] => []
    | start => start.takeWhile (!isBlank ·) ::
        tokenizeLine slots ((start.dropWhile (!isBlank ·)).drop 1)

/-- `Redirection` -/
structure Redirection where
  stdinFile : Option (List Byte) := none
  stdoutFile : Option (List Byte) := none
  stdoutAppend : Bool := false
  deriving DecidableEq

/-- `Stage`; `argc` is the length of `argv`. -/
structure Stage where
  argv : List (List Byte) := []
  redir : Redirection := {}
  deriving DecidableEq

inductive RedirectionOperator where
  | input
  | output
  | append

/-- The operator that a token starts with, and the rest of the token. -/
def redirectionOperator : List Byte → Option (RedirectionOperator × List Byte)
  | [] => none
  | first :: rest =>
    if first = greaterChar then
      if rest.head? = some greaterChar then some (.append, rest.tail) else some (.output, rest)
    else if first = lessChar then some (.input, rest)
    else none

/-- A redirection without a file leaves the file of an earlier one. -/
def Stage.redirect (stage : Stage) (file : Option (List Byte)) : RedirectionOperator → Stage
  | .input => { stage with redir.stdinFile := file <|> stage.redir.stdinFile }
  | .output => { stage with
      redir.stdoutFile := file <|> stage.redir.stdoutFile
      redir.stdoutAppend := false }
  | .append => { stage with
      redir.stdoutFile := file <|> stage.redir.stdoutFile
      redir.stdoutAppend := true }

/-- The loop of `parse_stage` over the tokens. -/
def parseTokens (stage : Stage) : List (List Byte) → Stage
  | [] => stage
  | token :: rest =>
    match redirectionOperator token with
    | none =>
      if stage.argv.length < 16 then parseTokens { stage with argv := stage.argv ++ [token] } rest
      else parseTokens stage rest
    | some (operator, []) =>
      match rest with
      | [] => stage.redirect none operator
      | file :: rest => parseTokens (stage.redirect (some file) operator) rest
    | some (operator, file) => parseTokens (stage.redirect (some file) operator) rest

/-- `parse_stage` -/
def parseStage (str : List Byte) : Stage := parseTokens {} (tokenizeLine 16 str)

/-- The strings of the stages, with the number of slots that are left. -/
def splitStages : Nat → List Byte → List (List Byte)
  | 0, _ => []
  | slots + 1, line =>
    match line.dropWhile isSpaceOrTab with
    | [] => []
    | start => start.takeWhile (· ≠ pipeChar) ::
        splitStages slots ((start.dropWhile (· ≠ pipeChar)).drop 1)

/-- `stages_str` -/
def stagesOf (line : List Byte) : List (List Byte) := splitStages 8 line

/-- What a pipeline does besides its calls: it prints, and it executes the command of a stage in
the state reached. -/
inductive PipelineEvent where
  | print (text : String) (operand : List Byte)
  | execute (stage : Nat) (argv : List (List Byte)) (world : FileWorld)

/-- What `copy_user_path` makes of a path of the shell, which has less than 256 bytes. -/
def userPath (path : List Byte) : Except PathProblem Name :=
  if (ByteArray.mk (path.map UInt8.ofBitVec).toArray).validateUTF8 then .ok path
  else .error .notUtf8

section

variable (pid : Nat) (command : List (List Byte) → FileWorld → FileWorld)

/-- Open a file in the place of a standard descriptor, if it can be opened. -/
def redirectTo (world : FileWorld) (path : List Byte) (flags mode : BitVec 32) (standard : Int) :
    Bool × FileWorld :=
  let (opened, world) := world.call pid (.open (userPath path) flags mode)
  if 0 ≤ opened.result then
    (true, (world.did pid (.dup2 opened.result standard)).did pid (.close opened.result))
  else (false, world)

def redirectInput (world : FileWorld) (redir : Redirection) : Bool × FileWorld :=
  match redir.stdinFile with
  | none => (true, world)
  | some path => redirectTo pid world path oRdonly 0 stdinFileno

def redirectOutput (world : FileWorld) (redir : Redirection) : Bool × FileWorld :=
  match redir.stdoutFile with
  | none => (true, world)
  | some path =>
    let flags := oWronly ||| oCreat ||| if redir.stdoutAppend then oAppend else oTrunc
    redirectTo pid world path flags 0o644 stdoutFileno

/-- The branch of `execute_pipeline_line` for one stage. -/
def executeStage (world : FileWorld) (stage : Stage) : List PipelineEvent × FileWorld :=
  if stage.argv = [] then ([], world)
  else
    let (origIn, world) := world.call pid (.dup stdinFileno)
    let (origOut, world) := world.call pid (.dup stdoutFileno)
    let (events, world) : List PipelineEvent × FileWorld :=
      match redirectInput pid world stage.redir with
      | (false, world) =>
        ([.print "shell: cannot open '%s' for input\n" (stage.redir.stdinFile.getD [])], world)
      | (true, world) =>
        match redirectOutput pid world stage.redir with
        | (false, world) =>
          ([.print "shell: cannot open '%s' for output\n" (stage.redir.stdoutFile.getD [])], world)
        | (true, world) => ([.execute 0 stage.argv world], command stage.argv world)
    let world := (world.did pid (.dup2 origIn.result stdinFileno)).did pid (.close origIn.result)
    (events,
      (world.did pid (.dup2 origOut.result stdoutFileno)).did pid (.close origOut.result))

/-- The descriptors of the ends of each pipe, unless a call fails. -/
def createPipes : Nat → FileWorld → Option (List (Int × Int)) × FileWorld
  | 0, world => (some [], world)
  | count + 1, world =>
    let (made, world) := world.call pid (.pipe .good)
    if made.result < 0 then (none, world)
    else
      let (pipes, world) := createPipes count world
      (pipes.map ((made.fds.getD 0 (-1), made.fds.getD 1 (-1)) :: ·), world)

def closePipes (pipes : List (Int × Int)) (world : FileWorld) : FileWorld :=
  pipes.foldl (fun world ends => (world.did pid (.close ends.1)).did pid (.close ends.2)) world

/-- The state in which the command of a stage starts. -/
def connectStage (pipes : List (Int × Int)) (i : Nat) (redir : Redirection) (world : FileWorld) :
    FileWorld :=
  let world :=
    if 0 < i then world.did pid (.dup2 (pipes.getD (i - 1) (-1, -1)).1 stdinFileno)
    else (redirectInput pid world redir).2
  let world :=
    if i < pipes.length then world.did pid (.dup2 (pipes.getD i (-1, -1)).2 stdoutFileno)
    else (redirectOutput pid world redir).2
  closePipes pid pipes world

/-- The loop of `execute_pipeline_line`, from stage `i` on. -/
def executeStages (pipes : List (Int × Int)) (origIn origOut : Int) :
    Nat → List (List Byte) → FileWorld → List PipelineEvent × FileWorld
  | _, [], world => ([], world)
  | i, str :: rest, world =>
    let stage := parseStage str
    if stage.argv = [] then executeStages pipes origIn origOut (i + 1) rest world
    else
      let started := connectStage pid pipes i stage.redir world
      let restored := ((command stage.argv started).did pid (.dup2 origIn stdinFileno)).did pid
        (.dup2 origOut stdoutFileno)
      let (events, world) := executeStages pipes origIn origOut (i + 1) rest restored
      (.execute i stage.argv started :: events, world)

/-- `execute_pipeline_line` of the process `pid`, where `command` is what a command does. -/
def executePipelineLine (line : List Byte) (world : FileWorld) : List PipelineEvent × FileWorld :=
  match stagesOf line with
  | [] => ([], world)
  | [str] => executeStage pid command world (parseStage str)
  | stages =>
    match createPipes pid (stages.length - 1) world with
    | (none, world) => ([.print "shell: pipe creation failed" []], world)
    | (some pipes, world) =>
      let (origIn, world) := world.call pid (.dup stdinFileno)
      let (origOut, world) := world.call pid (.dup stdoutFileno)
      let (events, world) :=
        executeStages pid command pipes origIn.result origOut.result 0 stages world
      (events, (world.did pid (.close origIn.result)).did pid (.close origOut.result))

end

end RustPosix.Shell
