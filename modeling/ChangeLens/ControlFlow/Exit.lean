import ChangeLens.ControlFlow.Function

/-! Early exits: statements that leave a function, and calls that end the program. -/
namespace ChangeLens.ControlFlow

def exitTypes : List String := [
  "return_statement", "return_expression", "return", "throw_statement", "throw_expression",
  "raise_statement", "exit_statement"]

def callTypes : List String := [
  "call_expression", "call", "method_invocation", "invocation_expression", "macro_invocation",
  "function_call_expression"]

def exitCalls : List String := [
  "process.exit", "sys.exit", "os._exit", "os.Exit", "System.exit", "Environment.Exit", "log.Fatal",
  "log.Fatalf", "exit", "_exit", "abort", "panic", "die"]

/-- What a call calls. Where the grammar keeps receiver and method apart they are joined by a dot. -/
def callee (call : Node) : String :=
  if call.type == "macro_invocation" then (call.textAt? "macro").getD ""
  else match call.textAt? "function" with
    | some target => target
    | none =>
      match (call.someTextAt? "method").or (call.someTextAt? "name") with
      | none => ""
      | some method =>
        match (call.someTextAt? "receiver").or (call.someTextAt? "object") with
        | some receiver => receiver ++ "." ++ method
        | none => method

def isExit (n : Node) : Bool :=
  exitTypes.contains n.type || (callTypes.contains n.type && exitCalls.contains (callee n))

mutual

/-- Whether a node is an exit or has one below it. Functions below it are passed over: an exit in one of
them leaves that function only. -/
def exitsEarly : Node → Bool
  | n@⟨_, _, _, _, _, _, children⟩ => isExit n || anyExitsEarly children

def anyExitsEarly : List Node → Bool
  | [] => false
  | n :: ns => (!isFunction n && exitsEarly n) || anyExitsEarly ns

end

end ChangeLens.ControlFlow
