/-!
# Shell scripts around a command

A launched command is wrapped in a script that writes the shell's process
number to a file, so that a later probe or kill reaches the same process.  The
script removes the file and stops its background jobs when it exits.
-/

namespace DevMachine.Exec

/-- Runs the command after writing the process number to the pid file. -/
def wrapCommand (pid command : String) : String :=
  s!"trap '[ -z \"$(jobs -p)\" ] || kill $(jobs -p); [ -e {pid} ] && rm {pid}' EXIT; " ++
    s!"echo $$>{pid}; {command}"

/-- Says nothing when the process of the pid file is alive. -/
def livenessProbe (pid : String) : String :=
  s!"if [ -r {pid} ]; then kill -0 $(cat {pid}) 2>&1; else echo \"no pid file {pid}\"; fi"

def killCommand (pid : String) : String :=
  s!"[ -r {pid} ] && kill $(cat {pid})"

/-- The command line that has the shell run a script. -/
def shellArguments (script : String) : List String := ["/bin/sh", "-c", script]

end DevMachine.Exec
