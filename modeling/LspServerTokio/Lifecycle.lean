import LspServerTokio.Codec

namespace LspServerTokio

inductive LifecycleState
  | uninitialized
  | initializing
  | running
  | shuttingDown
  | exited
  deriving DecidableEq, Repr

namespace LifecycleState

def isRequestAllowed (state : LifecycleState) (method : String) : Bool :=
  match state with
  | .uninitialized => method = "initialize"
  | .initializing | .shuttingDown | .exited => false
  | .running => method ≠ "initialize"

def isNotificationAllowed (state : LifecycleState) (method : String) : Bool :=
  match state with
  | .uninitialized | .shuttingDown => method = "exit"
  | .initializing => method = "initialized"
  | .running => true
  | .exited => false

end LifecycleState

inductive ExitCode
  | success
  | error
  deriving DecidableEq, Repr

inductive ProtocolError
  | disconnected
  | initializeTimeout
  | requestTimeout
  | io (e : IoError)
  deriving DecidableEq

end LspServerTokio
