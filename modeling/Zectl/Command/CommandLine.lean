import Zectl.Command.Runs

/-!
# Command lines

What a command line does depends on its options in their order and on its operands in theirs,
and a command line that is refused changes nothing. `set` takes no options and is scanned by
hand.
-/

namespace Zectl.Command.CommandLine

open Zectl.Lib.StateRun Zectl.Lib.GetOpt Zectl.Util.CString Zectl.Zfs.System Zectl.Zfs.Steps
open Zectl.Libze.Init Zectl.Libze.Listing Zectl.Libze.Sample Zectl.Command.Commands
open Zectl.Command.Program Zectl.Command.Runs

/-- The option string of a command, unless it scans its words by hand. -/
def optstring : CommandFunc → Option CStr
  | .activate => some "y"
  | .create => some "e:r"
  | .destroy => some "F"
  | .get | .list => some "H"
  | .mount | .rename | .snapshot | .unmount => some ""
  | .set => none

/-- The number of operands is one the command takes. -/
def takes : CommandFunc → Nat → Bool
  | .activate, n | .create, n | .destroy, n | .snapshot, n | .unmount, n => n = 1
  | .get, n => n ≤ 2
  | .mount, n => n = 1 ∨ n = 2
  | .rename, n => n = 2
  | .list, _ | .set, _ => true

/-- The words behind the name of a command have its options and operands. -/
def accepts (command : CommandFunc) (words : List CStr) : Bool :=
  match optstring command with
  | none => (words.head?.bind List.head?) ≠ some '-'
  | some optstring =>
    match getopt optstring none words with
    | .error _ => false
    | .ok (_, operands) => takes command operands.length

section Commands
variable {host : Host} {clock : Clock} {h : Handle} {name : CStr} {words : List CStr} {s : Sys}

/-- A body that does nothing with a wrong number of operands does nothing behind a scan that
finds one or fails. -/
theorem withOptions_refuses (command : CommandFunc) {word optstring' : CStr}
    {body : List Opt → List CStr → Libze Result} (hoptstring : optstring command = some optstring')
    (hbody : ∀ opts operands, takes command operands.length = false →
      (body opts operands s).1.1 ≠ .success ∧ (body opts operands s).2 = s)
    (hno : accepts command words = false) :
    (withOptions word optstring' (name :: words) body s).1.1 ≠ .success ∧
      (withOptions word optstring' (name :: words) body s).2 = s := by
  rw [accepts, hoptstring] at hno
  dsimp only at hno
  unfold withOptions
  rw [List.tail_cons]
  cases hopt : getopt optstring' none words with
  | error optopt => exact ⟨nofun, rfl⟩
  | ok found =>
    obtain ⟨opts, operands⟩ := found
    rw [hopt] at hno
    exact hbody opts operands hno

/-- A command that refuses its words does nothing. -/
theorem run_of_refused (command : CommandFunc) (hno : accepts command words = false) :
    (command.run host clock h (name :: words) s).1.1 ≠ .success ∧
      (command.run host clock h (name :: words) s).2 = s := by
  cases command with
  | activate | create | destroy | snapshot | unmount =>
    refine withOptions_refuses _ rfl (fun opts operands hlen => ?_) hno
    obtain _ | ⟨be, _ | ⟨be', rest⟩⟩ := operands
    · exact ⟨nofun, rfl⟩
    · cases hlen
    · exact ⟨nofun, rfl⟩
  | get =>
    refine withOptions_refuses .get rfl (fun opts operands hlen => ?_) hno
    have hmany : operands.length > 2 := by simpa [takes] using hlen
    dsimp only
    rw [run_ite, if_pos hmany]
    exact ⟨nofun, rfl⟩
  | list => exact withOptions_refuses .list rfl (fun opts operands hlen => by cases hlen) hno
  | mount =>
    refine withOptions_refuses .mount rfl (fun opts operands hlen => ?_) hno
    obtain _ | ⟨be, _ | ⟨dir, _ | ⟨more, rest⟩⟩⟩ := operands
    · exact ⟨nofun, rfl⟩
    · cases hlen
    · cases hlen
    · exact ⟨nofun, rfl⟩
  | rename =>
    refine withOptions_refuses .rename rfl (fun opts operands hlen => ?_) hno
    obtain _ | ⟨be, _ | ⟨newBe, _ | ⟨more, rest⟩⟩⟩ := operands
    · exact ⟨nofun, rfl⟩
    · exact ⟨nofun, rfl⟩
    · cases hlen
    · exact ⟨nofun, rfl⟩
  | set =>
    have hdash : (words.head?.bind List.head?) = some '-' := by
      simpa [accepts, optstring] using hno
    obtain _ | ⟨word, rest⟩ := words
    · cases hdash
    obtain _ | ⟨c, letters⟩ := word
    · cases hdash
    cases hdash
    exact ⟨nofun, rfl⟩

/-- Only the options and the operands count, each in their order. -/
theorem run_normalForm (command : CommandFunc) {optstring' : CStr} {opts : List Opt}
    {operands : List CStr} (hoptstring : optstring command = some optstring')
    (hopt : getopt optstring' none words = .ok (opts, operands)) :
    command.run host clock h (name :: words) =
      command.run host clock h (name :: normalForm opts operands) := by
  have hdash : '-' ∉ optstring' := by
    cases command <;> cases hoptstring <;> decide
  have hnormal := getopt_normalForm hdash hopt
  have hwith : ∀ word body, withOptions word optstring' (name :: words) body =
      withOptions word optstring' (name :: normalForm opts operands) body := by
    intro word body
    rw [withOptions, withOptions, List.tail_cons, List.tail_cons, hopt, hnormal]
  cases command with
  | set => cases hoptstring
  | _ =>
    cases hoptstring
    exact hwith _ _

end Commands

section Program
variable {m : Machine} {program name : CStr} {words : List CStr} {command : CommandFunc} {s : Sys}

/-- The words of a command line that the program takes apart are those behind the name. -/
theorem zectlMain_congr {words' : List CStr} (hcommand : getCommand zeCommandMap name = some command)
    (hrun : ∀ h, command.run m.host m.clock h (name :: words) =
      command.run m.host m.clock h (name :: words')) :
    zectlMain m (program :: name :: words) = zectlMain m (program :: name :: words') := by
  unfold zectlMain
  rw [List.tail_cons, List.tail_cons]
  dsimp only
  have hcontinue : ∀ h warning, runCommand m h warning name (name :: words) =
      runCommand m h warning name (name :: words') := by
    intro h warning
    unfold runCommand
    rw [hcommand]
    dsimp only
    rw [hrun h]
  simp only [hcontinue]

/-- A command line does what its normal form does, with the options in words of their own in
front, and the operands behind `--`. -/
theorem zectlMain_normalForm {optstring' : CStr} {opts : List Opt} {operands : List CStr}
    (hcommand : getCommand zeCommandMap name = some command)
    (hoptstring : optstring command = some optstring')
    (hopt : getopt optstring' none words = .ok (opts, operands)) :
    zectlMain m (program :: name :: words) =
      zectlMain m (program :: name :: normalForm opts operands) :=
  zectlMain_congr hcommand fun _ => run_normalForm command hoptstring hopt

theorem zectlMain_normalForm_sample :
    zectlMain sampleMachine ["zectl", "create", "n", "-re", "rpool/ROOT/b"] =
      zectlMain sampleMachine ["zectl", "create", "-r", "-e", "rpool/ROOT/b", "--", "n"] := by
  have hopt : getopt ("e:r" : CStr) none ["n", "-re", "rpool/ROOT/b"] =
      .ok ([⟨'r', none⟩, ⟨'e', some "rpool/ROOT/b"⟩], ["n"]) := rfl
  exact zectlMain_normalForm (by decide : getCommand zeCommandMap "create" = some .create) rfl hopt

/-- A command that only looks, on a system that is opened by looking, only looks. -/
theorem zectlMain_looked {argv : List CStr} (hlook : ∀ name words command h u,
    argv.tail = name :: words → getCommand zeCommandMap name = some command →
    Looked u (command.run m.host m.clock h (name :: words) u).2) :
    Looked s (zectlMain m argv s).2 := by
  cases mainRun m argv s with
  | looked ht => exact ht
  | ran hopen hargv hcommand ht =>
    have hopened := openSystem_looks.looked hopen
    rw [ht]
    exact hopened.trans (hlook _ _ _ _ _ hargv hcommand)

/-- `get` and `list` change nothing, whatever their command line is. -/
theorem queries_look (words : List CStr) (hquery : name = ("get" : CStr) ∨ name = ("list" : CStr)) :
    Looked s (zectlMain m (program :: name :: words) s).2 := by
  apply zectlMain_looked
  intro name' words' command h u hargv hcommand
  cases hargv
  have hissues : Issues m.host IsLookup (command.run m.host m.clock h (name :: words)) := by
    have hmem := getCommand_eq_some hcommand
    obtain rfl | rfl := hquery
    · obtain rfl : command = .get := by simpa [zeCommandMap] using hmem
      exact zeGet_issues
    · obtain rfl : command = .list := by simpa [zeCommandMap] using hmem
      exact zeList_looks
  exact hissues.looked rfl

/-- A word that is no command, and a command line its command refuses, fail and change nothing:
they issue no call but those that look. -/
theorem zectlMain_refused (m : Machine) (program name : CStr) (words : List CStr) (s : Sys)
    (hname : name ≠ ("version" : CStr))
    (hno : ∀ command, getCommand zeCommandMap name = some command →
      accepts command words = false) :
    (zectlMain m (program :: name :: words) s).1.1 = exitFailure ∧
      Looked s (zectlMain m (program :: name :: words) s).2 := by
  constructor
  · unfold zectlMain
    rw [List.tail_cons]
    dsimp only
    rw [if_neg hname, run_bind]
    cases hopen : (openSystem m s).1 with
    | error message => rfl
    | ok opened =>
      obtain ⟨h, warning⟩ := opened
      dsimp only
      unfold runCommand
      cases hcommand : getCommand zeCommandMap name with
      | none => rfl
      | some command =>
        dsimp only
        obtain ⟨hfail, -⟩ := @run_of_refused m.host m.clock h name words (openSystem m s).2 command
          (hno command hcommand)
        rw [run_bind, run_ite, if_pos hfail]
        rfl
  · apply zectlMain_looked
    intro name' words' command h u hargv hcommand
    cases hargv
    rw [(run_of_refused command (hno command hcommand)).2]
    exact .refl u

theorem zectlMain_refused_sample :
    (zectlMain sampleMachine ["zectl", "destroy", "-f", "b"] (sampleSys [])).1.1 = exitFailure ∧
      Looked (sampleSys [])
        (zectlMain sampleMachine ["zectl", "destroy", "-f", "b"] (sampleSys [])).2 := by
  refine zectlMain_refused sampleMachine "zectl" "destroy" ["-f", "b"] (sampleSys []) (by decide) ?_
  intro command hcommand
  obtain rfl : command = .destroy := by
    have hmem := getCommand_eq_some hcommand
    simpa [zeCommandMap] using hmem
  rfl

end Program

end Zectl.Command.CommandLine
