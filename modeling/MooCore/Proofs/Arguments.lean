import MooCore.Arguments
/-!
# What a configuration that is accepted says

The command line is laid over what the configuration file says, or over the defaults if there is no
file. A limit of no background threads is turned down on the command line, and nowhere else,
whichever way files are read.
-/

set_option autoImplicit false
namespace MooCore.Arguments

/-- What the command line is laid over, unless the file cannot be read as a configuration. -/
def base? (a : Arguments) (file : String → Option String) (read : String → Option Config) :
    Option Config :=
  match a.configFile.bind file with
  | none => some {}
  | some text => read text

variable {a : Arguments} {file : String → Option String} {read : String → Option Config}
  {base c : Config}

theorem loadConfig_eq (a : Arguments) (file : String → Option String)
    (read : String → Option Config) :
    a.loadConfig file read =
      match a.base? file read with
      | some base => a.merge base
      | none => .error (.badFile (a.configFile.getD "")) := by
  unfold loadConfig base?
  cases a.configFile with
  | none => rfl
  | some path =>
    dsimp only [Option.bind]
    cases file path with
    | none => rfl
    | some text => rfl

theorem base_of_loadConfig (loads : a.loadConfig file read = .ok c) :
    ∃ base, a.base? file read = some base ∧ a.merge base = .ok c := by
  rw [loadConfig_eq] at loads
  split at loads
  · exact ⟨_, ‹_›, loads⟩
  · cases loads

theorem merge_limit (merged : a.merge base = .ok c) :
    a.maxBackgroundThreads ≠ some 0 ∧
      c.runtime.maxBackgroundThreads =
        a.maxBackgroundThreads.getD base.runtime.maxBackgroundThreads := by
  unfold merge mergeRuntime at merged
  split at merged
  · cases merged
  · rename_i some_threads
    obtain rfl := Except.ok.inj merged
    exact ⟨some_threads, rfl⟩

/-- A configuration that is accepted leaves no room for a thread exactly if the file says so and
the command line says nothing about it. -/
theorem no_room_iff (loads : a.loadConfig file read = .ok c) :
    c.runtime.maxBackgroundThreads = 0 ↔
      a.maxBackgroundThreads = none ∧
        ∃ base, a.base? file read = some base ∧ base.runtime.maxBackgroundThreads = 0 := by
  obtain ⟨base, based, merged⟩ := base_of_loadConfig loads
  obtain ⟨some_threads, limit⟩ := merge_limit merged
  rw [limit]
  cases asked : a.maxBackgroundThreads with
  | none => simp [based]
  | some n =>
    rw [asked] at some_threads
    simpa using some_threads

end MooCore.Arguments
