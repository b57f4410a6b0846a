import IsolationServer.Handlers
import IsolationServer.LeaseProtocol
import IsolationServer.LoginLock
import IsolationServer.CreationProtocol
import IsolationServer.Registration
import IsolationServer.Sequential
import IsolationServer.LockOwnership
import IsolationServer.Authentication
import IsolationServer.WriteQueue
import IsolationServer.LittleEndian
import IsolationServer.ReadLoop
import IsolationServer.Startup
import IsolationServer.Connections
import IsolationServer.CompleteAccounts
import IsolationServer.AccountReads
import IsolationServer.Restarts
import IsolationServer.WriteDelivery
import IsolationServer.EventLoop
import IsolationServer.ClientViews
import IsolationServer.LockOrder
import IsolationServer.TokenPool
import IsolationServer.Serialisability
import IsolationServer.WireFormat
import IsolationServer.RejectedInput
import IsolationServer.LogoutUndoesLogin
import IsolationServer.Utf8Length
import IsolationServer.PasswordHash
import IsolationServer.Assurance
import IsolationServer.Credentials
import IsolationServer.Conversations
import IsolationServer.Completion
import IsolationServer.EndToEnd
import IsolationServer.Linearization
import IsolationServer.Lifetimes
import IsolationServer.Acceptance
import IsolationServer.Callbacks
