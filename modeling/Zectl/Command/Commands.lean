import Zectl.Lib.GetOpt
import Zectl.Command.Table
import Zectl.Libze.Activate
import Zectl.Libze.MountTree
import Zectl.Libze.Property
import Zectl.Libze.Rename
import Zectl.Libze.Snapshot
import Zectl.Libze.Unmount
import Zectl.Libze.DestroyOutcome

/-!
# The commands of `zectl`

Each command scans its words with `getopt`, checks the number of its operands and calls one
function of the library. `set` looks at its first word itself. What the library writes to the
standard error while it works is not part of the output here.
-/

namespace Zectl.Command.Commands

open Zectl.Lib.GetOpt Zectl.Util.CString Zectl.Zfs.System Zectl.Libze.Init Zectl.Libze.Activate
open Zectl.Libze.Create Zectl.Libze.Destroy Zectl.Libze.Listing Zectl.Libze.MountTree
open Zectl.Libze.Property Zectl.Libze.Rename Zectl.Libze.Snapshot Zectl.Libze.Unmount
open Zectl.Command.Table

/-- What the program writes to its standard output and to its standard error. -/
structure Output where
  out : CStr := []
  err : CStr := []
  deriving DecidableEq

/-- `ZE_PROGRAM` -/
def zeProgram : CStr := "zectl"

/-- `ze_usage` -/
def zeUsage : CStr := format [
  "\nUsage:\n",
  zeProgram, " activate <boot environment>\n",
  zeProgram, " create [ -e <existing-dataset> | <existing-dataset@snapshot> ] [ -r ] ",
    "<boot-environment>\n",
  zeProgram, " destroy [ -F ] <boot-environment>\n",
  zeProgram, " get [ -H ] [ property ]\n",
  zeProgram, " list\n",
  zeProgram, " mount <boot environment>\n",
  zeProgram, " rename <boot-environment> <boot-environment-new>\n",
  zeProgram, " set <property>=<value>\n",
  zeProgram, " snapshot <boot-environment>@<snapshot>\n",
  zeProgram, " unmount <boot-environment>\n",
  zeProgram, " version\n"]

abbrev Result := LibzeError × Output

/-- A command line that is refused with the usage. -/
def refuse (message : CStr) : Result := (.unknown, ⟨zeUsage, message⟩)

def unknownOption (command : CStr) (optopt : Char) : Result :=
  refuse (format [zeProgram, " ", command, ": unknown option '-", [optopt], "'\n"])

def wrongNumber (command : CStr) : Result :=
  refuse (format [zeProgram, " ", command, ": wrong number of arguments\n"])

/-- The loop over the options that the commands share. The name of the command is the first
word of `argv`. -/
def withOptions (command optstring : CStr) (argv : List CStr)
    (body : List Opt → List CStr → Libze Result) : Libze Result :=
  match getopt optstring none argv.tail with
  | .error optopt => return unknownOption command optopt
  | .ok (opts, operands) => body opts operands

/-- The option was given. -/
def hasOption (letter : Char) (opts : List Opt) : Bool := opts.any fun o => o.letter = letter

/-- The argument of an option; the last one counts. -/
def optarg (letter : Char) (opts : List Opt) : Option CStr :=
  (opts.findRev? fun o => o.letter = letter).bind Opt.argument

/-- A function of the library that prints nothing. -/
def silent (run : Libze LibzeError) : Libze Result := do return (← run, {})

section Commands
variable (host : Host) (h : Handle)

/-- `ze_activate` -/
def zeActivate (argv : List CStr) : Libze Result :=
  withOptions "activate" "y" argv fun _ operands =>
    match operands with
    | [beName] => do
      let (code, beDsBuff) := libzeUtilConcat h.envRoot "/" beName zfsMaxDatasetNameLen
      if code ≠ 0 then
        return (.maxpathlen, ⟨[], format ["Requested boot environment ", beName,
          " exceeds max length 256\n"]⟩)
      if libzeIsActiveBe h beDsBuff then
        return (.unknown, ⟨[], format ["Boot environment ", beName, " is already active\n"]⟩)
      silent (libzeActivate host h beName)
    | _ => return wrongNumber "activate"

/-- `ze_create` -/
def zeCreate (argv : List CStr) : Libze Result :=
  withOptions "create" "e:r" argv fun opts operands =>
    match operands with
    | [name] => do
      let (len, beName) := strlcpy name zfsMaxDatasetNameLen
      if zfsMaxDatasetNameLen ≤ len then
        return (.maxpathlen, ⟨[], "Boot environment name exceeds max dataset length.\n"⟩)
      let recursive := hasOption 'r' opts
      match optarg 'e' opts with
      | none => silent (libzeCreate host h ⟨false, recursive, beName, []⟩)
      | some beExisting =>
        let (len, beSource) := strlcpy beExisting zfsMaxDatasetNameLen
        if zfsMaxDatasetNameLen ≤ len then
          return (.maxpathlen, ⟨[],
            "Existing boot environment source exceeds max dataset length.\n"⟩)
        silent (libzeCreate host h ⟨true, recursive, beName, beSource⟩)
    | _ => return wrongNumber "create"

/-- `ze_destroy` -/
def zeDestroy (argv : List CStr) : Libze Result :=
  withOptions "destroy" "F" argv fun opts operands =>
    match operands with
    | [beName] => silent (libzeDestroy host h ⟨beName, true, hasOption 'F' opts⟩)
    | _ => return wrongNumber "destroy"

/-- `ze_get` -/
def zeGet (argv : List CStr) : Libze Result :=
  withOptions "get" "H" argv fun opts operands => do
    let tabDelimited := hasOption 'H' opts
    if operands.length > 2 then
      return (.unknown, ⟨[], format [zeProgram, ": Wrong number of arguments.\n"]⟩)
    match operands with
    | [] => return (.success, ⟨printProperties h.zeProps tabDelimited, []⟩)
    | prop :: _ =>
      if prop = ("all" : CStr) then
        return (.success, ⟨printProperties h.zeProps tabDelimited, []⟩)
      let (ret, properties) ← libzeAddGetProperty h [] prop
      if ret ≠ .success then return (ret, {})
      return (.success, ⟨printProperties properties tabDelimited, []⟩)

/-- `ze_list` -/
def zeList (clock : Clock) (argv : List CStr) : Libze Result :=
  withOptions "list" "H" argv fun opts _ => do
    let (ret, outnvl) ← libzeList host clock h
    if ret ≠ .success then return (ret, {})
    return (.success, ⟨printBes (outnvl.map Prod.snd) (hasOption 'H' opts), []⟩)

/-- What `ze_mount` does with its operands. -/
def mountAndPrint (bootEnvironment : CStr) (mountpoint : Option CStr) : Libze Result := do
  let (ret, mountpointBuffer) ← libzeMount host h bootEnvironment mountpoint
  if ret ≠ .success then return (ret, {})
  return (.success, ⟨mountpointBuffer ++ ['\n'], []⟩)

/-- `ze_mount` -/
def zeMount (argv : List CStr) : Libze Result :=
  withOptions "mount" "" argv fun _ operands =>
    match operands with
    | [bootEnvironment] => mountAndPrint host h bootEnvironment none
    | [bootEnvironment, mountpoint] => mountAndPrint host h bootEnvironment (some mountpoint)
    | _ => return wrongNumber "mount"

/-- `ze_rename` -/
def zeRename (argv : List CStr) : Libze Result :=
  withOptions "rename" "" argv fun _ operands =>
    match operands with
    | [be, newBe] => do
      if '/' ∈ newBe then
        return (.unknown, ⟨[], format [zeProgram,
          " rename: Boot environment name can't contain '/'\n"]⟩)
      silent (libzeRename host h be newBe)
    | _ => return wrongNumber "rename"

/-- The loop of `ze_set` over its words. -/
def addSetProperties : List CStr → List (CStr × CStr) → LibzeError × List (CStr × CStr)
  | [], properties => (.success, properties)
  | property :: rest, properties =>
    match libzeAddSetProperty properties property with
    | (.success, properties) => addSetProperties rest properties
    | (ret, properties) => (ret, properties)

/-- `ze_set`. Its first word is an option when it begins with a dash; the letter of a single
dash is the terminator. -/
def zeSet (argv : List CStr) : Libze Result :=
  match argv with
  | [] => return refuse "No properties provided\n"
  | _ :: words =>
    match words with
    | ('-' :: letters) :: _ => return unknownOption "set" (letters.headD (Char.ofNat 0))
    | _ => do
      let (ret, properties) := addSetProperties words []
      if ret ≠ .success then return (ret, {})
      silent (libzeSet host h properties)

/-- `ze_snapshot` -/
def zeSnapshot (argv : List CStr) : Libze Result :=
  withOptions "snapshot" "" argv fun _ operands =>
    match operands with
    | [bootEnvironment] => silent (libzeSnapshot host h bootEnvironment)
    | _ => return wrongNumber "snapshot"

/-- `ze_unmount` -/
def zeUnmount (argv : List CStr) : Libze Result :=
  withOptions "unmount" "" argv fun _ operands =>
    match operands with
    | [bootEnvironment] => silent (libzeUnmount host h bootEnvironment)
    | _ => return wrongNumber "unmount"

end Commands

/-- `command_func` -/
inductive CommandFunc where
  | activate | create | destroy | get | list | mount | rename | set | snapshot | unmount
  deriving DecidableEq

def CommandFunc.run (host : Host) (clock : Clock) (h : Handle) :
    CommandFunc → List CStr → Libze Result
  | .activate => zeActivate host h
  | .create => zeCreate host h
  | .destroy => zeDestroy host h
  | .get => zeGet h
  | .list => zeList host h clock
  | .mount => zeMount host h
  | .rename => zeRename host h
  | .set => zeSet host h
  | .snapshot => zeSnapshot host h
  | .unmount => zeUnmount host h

/-- `ze_command_map` -/
def zeCommandMap : List (CStr × CommandFunc) :=
  [("activate", .activate), ("create", .create), ("destroy", .destroy), ("get", .get),
    ("list", .list), ("mount", .mount), ("rename", .rename), ("set", .set),
    ("snapshot", .snapshot), ("unmount", .unmount)]

/-- `get_command`: the last entry of the name. -/
def getCommand (zeCommandMap : List (CStr × CommandFunc)) (inputName : CStr) :
    Option CommandFunc :=
  zeCommandMap.foldl (fun command entry => if inputName = entry.1 then some entry.2 else command)
    none

end Zectl.Command.Commands
