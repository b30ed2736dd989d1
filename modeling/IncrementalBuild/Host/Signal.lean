/-!
# Signals

The numbers and names of signals, and what they do to a process.

## Main definitions

* `Signal.systemName?` — the name in the report on an ended process.
* `Signal.description` — what the shell says of a process that a signal has ended.
* `Signal.name?`, `Signal.ofName?` — the names that commands of the shell use.
-/

namespace IncrementalBuild.Signal

/-- The number beyond all signals. -/
def limit : Nat := 65

/-- The names and descriptions of the signals with names of their own. -/
def table : List (Nat × String × String) :=
  [(1, "HUP", "Hangup"), (2, "INT", "Interrupt"), (3, "QUIT", "Quit"),
   (4, "ILL", "Illegal instruction"), (5, "TRAP", "Trace/breakpoint trap"), (6, "ABRT", "Aborted"),
   (7, "BUS", "Bus error"), (8, "FPE", "Floating point exception"), (9, "KILL", "Killed"),
   (10, "USR1", "User defined signal 1"), (11, "SEGV", "Segmentation fault"),
   (12, "USR2", "User defined signal 2"), (13, "PIPE", "Broken pipe"), (14, "ALRM", "Alarm clock"),
   (15, "TERM", "Terminated"), (16, "STKFLT", "Stack fault"), (17, "CHLD", "Child exited"),
   (18, "CONT", "Continued"), (19, "STOP", "Stopped (signal)"), (20, "TSTP", "Stopped"),
   (21, "TTIN", "Stopped (tty input)"), (22, "TTOU", "Stopped (tty output)"),
   (23, "URG", "Urgent I/O condition"), (24, "XCPU", "CPU time limit exceeded"),
   (25, "XFSZ", "File size limit exceeded"), (26, "VTALRM", "Virtual timer expired"),
   (27, "PROF", "Profiling timer expired"), (28, "WINCH", "Window changed"),
   (29, "IO", "I/O possible"), (30, "PWR", "Power failure"), (31, "SYS", "Bad system call")]

/-- The name of a signal in the report on an ended process. -/
def systemName? (n : Nat) : Option String := (table.lookup n).map Prod.fst

/-- The first signal that is free for any use. -/
def firstFree : Nat := 34

/-- What the shell says of a process that a signal has ended. -/
def description (n : Nat) : String :=
  match table.lookup n with
  | some (_, text) => text
  | none =>
    if firstFree ≤ n ∧ n < limit then s!"Real-time signal {n - firstFree}"
    else s!"Unknown signal {n}"

/-- The name of a signal in the commands of the shell; the end of a script counts as signal 0. -/
def name? (n : Nat) : Option String :=
  if n = 0 then some "EXIT"
  else if limit ≤ n then none
  else if n = 16 ∨ n = 32 ∨ n = 33 then some (toString n)
  else
    match systemName? n with
    | some name => some name
    | none =>
      -- The free signals are named from both ends.
      if n = firstFree then some "RTMIN"
      else if n = limit - 1 then some "RTMAX"
      else if n < 50 then some s!"RTMIN+{n - firstFree}"
      else some s!"RTMAX-{limit - 1 - n}"

/-- The signal with a name, in either case, or with a number; names below `least` do not count. -/
def ofName? (least : Nat) (cs : List Char) : Option Nat :=
  if !cs.isEmpty && cs.all Char.isDigit then
    let n := cs.foldl (fun n d => n * 10 + (d.toNat - '0'.toNat)) 0
    if n < limit then some n else none
  else
    ((List.range limit).filter (least ≤ ·)).find? fun n =>
      (name? n).map (fun name => name.toList) == some (cs.map Char.toUpper)

/-- Whether a signal that nobody has asked for does nothing to a process. -/
def isHarmless (n : Nat) : Bool := [0, 17, 18, 23, 28].contains n

/-- Whether a signal only stops a process. -/
def stops (n : Nat) : Bool := [19, 20, 21, 22].contains n

end IncrementalBuild.Signal
