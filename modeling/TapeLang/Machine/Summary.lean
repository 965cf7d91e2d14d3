import TapeLang.Machine.Run

/-!
# What is told of an execution

Model of `bfvm.engine`: `ExecutionResult.summary`, and how a result shows.
-/

namespace TapeLang.Execution

def success (x : Execution) : Bool :=
  x.error.isNone

def summaryLines (x : Execution) : List String :=
  [ "bfvm execution " ++ (if x.success then "SUCCESS" else "FAILED"),
    "  Steps: " ++ toString x.state.steps,
    "  Data pointer: " ++ toString x.state.dp,
    "  Bytes read: " ++ toString x.state.bytesRead,
    "  Bytes written: " ++ toString x.state.bytesWritten,
    "  Cells allocated: " ++ toString x.state.tape.allocated ]
  ++ x.error.toList.map fun e => "  Error: " ++ e.message

/-- The counters of the execution and its error. -/
def summary (x : Execution) : String :=
  "\n".intercalate x.summaryLines

def label (x : Execution) : String :=
  "<ExecutionResult: " ++ (if x.success then "OK" else "FAIL") ++ " steps=" ++
    toString x.state.steps ++ ">"

end TapeLang.Execution
