import ArtifactVault.Output

/-!
Programs over an output: steps, each with its reply. A step that fails does not end the program, and
what the sink took of it stays taken.
-/
namespace ArtifactVault.Output

inductive Step
  | append (bytes : Bytes)
  | appendText (text : String)
  | appendFormatted (text : String)
  | writeFormatted (text : String)
  | write (bytes : Bytes)
  | writeAll (bytes : Bytes)
  | flush
  deriving DecidableEq, Repr

inductive Reply
  | done
  | wrote (count : Nat)
  | failed (e : SystemError)
  deriving DecidableEq, Repr

def replying {α : Type} (reply : α → Reply)
    (outcome : Except Abort (Except SystemError α × Output)) : Except Abort (Reply × Output) := do
  match ← outcome with
  | (.ok value, out) => return (reply value, out)
  | (.error e, out) => return (.failed e, out)

def perform (out : Output) (step : Step) : Except Abort (Reply × Output) :=
  match step with
  | .append bytes => replying (fun _ => .done) (out.append bytes)
  | .appendText text => replying (fun _ => .done) (out.appendText text)
  | .appendFormatted text => replying (fun _ => .done) (out.appendFormatted [text])
  | .writeFormatted text => replying (fun _ => .done) (out.writeFormatted [text])
  | .write bytes => replying .wrote (out.write bytes)
  | .writeAll bytes => replying (fun _ => .done) (out.writeAll bytes)
  | .flush => .ok (.done, out.flush)

def run (out : Output) : List Step → Except Abort (List Reply × Output)
  | [] => .ok ([], out)
  | step :: steps => do
    let (reply, out) ← out.perform step
    let (replies, out) ← out.run steps
    return (reply :: replies, out)

end ArtifactVault.Output
