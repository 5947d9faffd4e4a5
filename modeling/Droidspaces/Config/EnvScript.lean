import Droidspaces.Config.Environment
import Droidspaces.Shell.Script

/-!
# The environment as a script

What `ds_env_save` writes is read by the shells of the container.  `run_dsEnvSave` says what they do
with it: they assign the variables, and the ones that boot adds for the services of the host.
-/

namespace Droidspaces.Config

open Shell (Action isName isNameChar exportName exportCommand escapeSingle quoteSingle)

theorem isName_of_isEnvKey {key : Text} (h : isEnvKey key = true) : isName key = true := by
  cases key with
  | nil => cases h
  | cons c cs => exact h

theorem exportLine_escape (v : EnvVar) :
    exportLine { v with value := escape v.value } = exportCommand v.key v.value := by
  have hprefix : exportPrefix = exportName ++ [' '] := by decide
  have hescape : escape v.value = escapeSingle v.value := rfl
  simp [exportLine, exportCommand, quoteSingle, hprefix, hescape]

/-- What assigns a variable. -/
def assignment (v : EnvVar) : Action := .assign v.key v.value

theorem run_exports {vars : List EnvVar} (h : ∀ v ∈ vars, isEnvKey v.key = true) :
    Shell.run (vars.flatMap fun v => exportLine { v with value := escape v.value }) =
      some (vars.map assignment) := by
  induction vars with
  | nil => rfl
  | cons v vars ih =>
    obtain ⟨hv, hvars⟩ := List.forall_mem_cons.1 h
    rw [List.flatMap_cons, exportLine_escape, Shell.run_exportCommand (isName_of_isEnvKey hv),
      ih hvars]
    rfl

theorem dsEnvSave_eq (android : Bool) (cfg : DsConfig) (env : List EnvVar) :
    dsEnvSave android cfg env = (env ++ injected android cfg).flatMap
      fun v => exportLine { v with value := escape v.value } := by
  have hinjected : (injected android cfg).flatMap exportLine =
      (injected android cfg).flatMap fun v => exportLine { v with value := escape v.value } := by
    refine List.flatMap_congr fun v hv => ?_
    rw [escape_eq_self (isVar_of_mem_injected v hv).2]
  rw [dsEnvSave, List.flatMap_append, List.flatMap_map, hinjected]

/-- **The saved environment assigns its variables and nothing else happens**, whatever is in the
values; the variables for the services of the host come after them. -/
theorem run_dsEnvSave (android : Bool) (cfg : DsConfig) {env : List EnvVar}
    (h : ∀ v ∈ env, isEnvKey v.key = true) :
    Shell.run (dsEnvSave android cfg env) =
      some ((env ++ injected android cfg).map assignment) := by
  rw [dsEnvSave_eq]
  refine run_exports fun v hv => ?_
  rcases List.mem_append.1 hv with hv | hv
  · exact h v hv
  · exact (isVar_of_mem_injected v hv).1.key

def greeting : List EnvVar := [⟨"GREETING".toList, "it's $HOME; rm -rf \\".toList⟩]

theorem run_dsEnvSave_greeting :
    Shell.run (dsEnvSave true defaults greeting) = some (greeting.map assignment) :=
  run_dsEnvSave true defaults (by decide +kernel)

/-- A container on the display of the phone. -/
def displayed : DsConfig := defaults.set (.flag .termuxX11) true

theorem run_dsEnvSave_displayed :
    Shell.run (dsEnvSave true displayed []) ≠ some ([].map assignment) := by
  decide +kernel

end Droidspaces.Config
