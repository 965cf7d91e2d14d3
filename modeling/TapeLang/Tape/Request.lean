import TapeLang.Tape

/-!
# What a tape is asked for

The methods of `Tape` of `bfvm.tape` as requests, with the tape behind any number of them.
-/

namespace TapeLang.Tape

inductive Request
  | get (index : Int)
  | set (index value : Int)
  | length
  | snapshot
  | label
  deriving DecidableEq, Repr

inductive Answer
  | value (v : Int)
  | written
  | length (n : Nat)
  | cells (values : Array Int)
  | text (s : String)
  | refused (fault : TapeFault)
  | unreported (fault : LengthFault)
  deriving DecidableEq, Repr

def serve (t : Tape) (r : Request) : Answer × Tape :=
  match r with
  | .get index =>
    match t.get index with
    | .ok v => (.value v, t)
    | .error f => (.refused f, t)
  | .set index value =>
    match t.set index value with
    | .ok t' => (.written, t')
    | .error f => (.refused f, t)
  | .length =>
    match t.reportedLength with
    | .ok n => (.length n, t)
    | .error f => (.unreported f, t)
  | .snapshot => (.cells t.snapshot, t)
  | .label => (.text t.label, t)

def after (t : Tape) (history : List Request) : Tape :=
  history.foldl (fun t r => (t.serve r).2) t

@[simp]
theorem after_nil (t : Tape) : t.after [] = t := rfl

theorem after_concat (t : Tape) (history : List Request) (r : Request) :
    t.after (history ++ [r]) = ((t.after history).serve r).2 := by
  simp [after]

end TapeLang.Tape
