import IncrementalBuild.Host.Shell.Tool.Find
import IncrementalBuild.Host.Shell.Tool.Lines
import IncrementalBuild.Host.Shell.Tool.Search
import IncrementalBuild.Host.Shell.Tool.Starting
import IncrementalBuild.Host.Shell.Tool.Stream
import IncrementalBuild.Host.Shell.Tool.Trees
import IncrementalBuild.Host.Shell.Tool.Values
/-!
# The host's tools

The programs that stand beside the shell, by their names.

## Main definitions

* `Shell.Tool.run` — runs a tool with its arguments.

The names are those of `Program.tools` other than the shell's own.
-/

namespace IncrementalBuild.Shell.Tool

/-- Runs a tool with its arguments; `launch` starts other programs. -/
def run (launch : Launch) (name : String) (args : List Text) : Run Nat :=
  match name with
  | "true" | "sync" => return 0
  | "false" => return 1
  | "echo" => echo args
  | "printf" => printf args
  | "yes" => yes args
  | "test" => test false args
  | "[" => test true args
  | "basename" => basename args
  | "dirname" => dirname args
  | "pwd" => pwd args
  | "which" => which args
  | "seq" => seq args
  | "expr" => expr args
  | "id" => id args
  | "whoami" => whoami args
  | "uname" => uname args
  | "env" => env launch args
  | "printenv" => printenv args
  | "nice" => nice launch args
  | "nohup" => nohup launch args
  | "timeout" => timeout launch args
  | "xargs" => xargs launch args
  | "sleep" => sleep args
  | "kill" => kill args
  | "cat" => cat args
  | "tee" => tee args
  | "head" => head args
  | "tail" => tail args
  | "wc" => wc args
  | "tac" => tac args
  | "rev" => rev args
  | "nl" => nl args
  | "paste" => paste args
  | "fold" => fold args
  | "cut" => cut args
  | "tr" => tr args
  | "sort" => sort args
  | "uniq" => uniq args
  | "grep" => grep none args
  | "egrep" => grep (some 'E') args
  | "fgrep" => grep (some 'F') args
  | "sed" => sed args
  | "mkdir" => mkdir args
  | "rmdir" => rmdir args
  | "rm" => rm args
  | "touch" => touch args
  | "chmod" => chmod args
  | "mktemp" => mktemp args
  | "truncate" => truncate args
  | "cp" => cp args
  | "mv" => mv args
  | "ln" => ln args
  | "ls" => ls args
  | "realpath" => realpath args
  | "readlink" => readlink args
  | "cmp" => cmp args
  | "stat" => stat args
  | "find" => find launch args
  | _ => return 127

end IncrementalBuild.Shell.Tool
