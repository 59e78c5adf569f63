import LLMQore.Reentrant.Proc
import LLMQore.Reentrant.Rules
import LLMQore.Reentrant.Implement
import LLMQore.Reentrant.Segments
import LLMQore.Reentrant.CallOuts
import LLMQore.Reentrant.History
import LLMQore.Reentrant.Alone
import LLMQore.Json
import LLMQore.JsonTexts
import LLMQore.Rpc.Session
import LLMQore.Rpc.SessionMachine
import LLMQore.Rpc.Outgoing
import LLMQore.Rpc.PeerCancel
import LLMQore.Rpc.Ledger
import LLMQore.Rpc.Incoming
import LLMQore.Rpc.SessionRules
import LLMQore.Rpc.ProtocolPeer
import LLMQore.Mcp.HttpServer
import LLMQore.Mcp.HttpServerRouting
import LLMQore.Mcp.HttpServerQueue
import LLMQore.Mcp.HttpConnection
import LLMQore.Core.ContentBlocks
import LLMQore.Core.Conversation
import LLMQore.Core.ConversationJson
import LLMQore.Core.BaseMessage
import LLMQore.Core.Usage
import LLMQore.Core.ProviderClient
import LLMQore.Rpc.LineFramer
import LLMQore.Rpc.LineFraming
import LLMQore.Clients.Claude
import LLMQore.Clients.OpenAI
import LLMQore.Clients.OpenAIResponses
import LLMQore.Clients.Ollama
import LLMQore.Clients.Google
import LLMQore.Core.ActiveRequest
import LLMQore.Clients.ContinuationReplay
import LLMQore.Clients.GoogleReplay
import LLMQore.Clients.GoogleSchema
import LLMQore.Clients.GoogleSignatures
import LLMQore.Clients.GoogleErrorSniffer
import LLMQore.Clients.ClaudeStreaming
import LLMQore.Clients.OpenAIStreaming
import LLMQore.Clients.OpenAIToolCalls
import LLMQore.Clients.StructuredResults
import LLMQore.Tools.ToolRound
import LLMQore.Tools.StoredResults
import LLMQore.Tools.CallInputs
import LLMQore.Tools.ToolsManager
import LLMQore.Tools.RoundLifecycle
import LLMQore.Tools.ExecutionGate
import LLMQore.Tools.RoundProgress
import LLMQore.Tools.Driving
import LLMQore.Tools.Announcing
import LLMQore.Streaming.Transducer
import LLMQore.Streaming.Fifo
import LLMQore.Streaming.Lanes
import LLMQore.Bytes
import LLMQore.PlaceMarkers
import LLMQore.Network.SSEParser
import LLMQore.Network.SSEChunking
import LLMQore.Network.SSELimit
import LLMQore.Network.SSEFormat
import LLMQore.Network.HttpRequestParser
import LLMQore.Network.HttpWire
import LLMQore.Network.HttpCuts
import LLMQore.Tools.RoundCancel
import LLMQore.Core.ClientRules
import LLMQore.Core.RequestOutcome
import LLMQore.SchemaTables
import LLMQore.Acp.TerminalManager
import LLMQore.Acp.AcpClient
import LLMQore.Acp.ToolCalls
import LLMQore.Rpc.Transport
import LLMQore.Mcp.TransportLifeCycle
import LLMQore.Mcp.HttpPipelining
import LLMQore.Mcp.McpToolBinder
import LLMQore.Mcp.Reconnects
import LLMQore.Mcp.BinderUpdates
import LLMQore.Mcp.BridgedTools
import LLMQore.Mcp.ServedTools
import LLMQore.Mcp.ProviderLists
import LLMQore.Mcp.TryEach
import LLMQore.Mcp.SseHttpTransport
import LLMQore.Mcp.StdioBinding
import LLMQore.Mcp.BridgeServer
import LLMQore.Streaming.Resume
import LLMQore.Mcp.StreamableHttpTransport
import LLMQore.Mcp.ListenStream
import LLMQore.Mcp.RemoteCalls
import LLMQore.Clients.ClaudeReplay
import LLMQore.Clients.ResponsesStreaming
import LLMQore.Clients.ResponsesReasoning
import LLMQore.Clients.OllamaStreaming
import LLMQore.Clients.OllamaCuts
import LLMQore.Clients.OllamaToolCalls
import LLMQore.Core.Undisturbed
import LLMQore.Core.RequestRounds
import LLMQore.Network.HttpExact
import LLMQore.Mcp.SsePosts
import LLMQore.Mcp.MirroredTools
import LLMQore.Reentrant.Logged
import LLMQore.Mcp.ListingOrder
import LLMQore.Keyed
import LLMQore.Acp.AcpAgentRegistry
import LLMQore.Core.ThinkingBlocks
import LLMQore.FutureUtils
import LLMQore.Lines
import LLMQore.Tails
import LLMQore.Acp.DefaultFileSystemProvider
import LLMQore.Acp.TerminalOutput
