import SyntriassOverlay.Lib.Resumption
import SyntriassOverlay.Crypto.Completeness
import SyntriassOverlay.Opening
import SyntriassOverlay.Records
import SyntriassOverlay.Process
import SyntriassOverlay.Egress
import SyntriassOverlay.Fork
import SyntriassOverlay.Integrity
import SyntriassOverlay.Conservation
import SyntriassOverlay.Posture
import SyntriassOverlay.Closed
import SyntriassOverlay.Waiting
import SyntriassOverlay.Retry
import SyntriassOverlay.Peek
import SyntriassOverlay.Shutdown
import SyntriassOverlay.Reload
import SyntriassOverlay.Tracking
import SyntriassOverlay.Duplex
import SyntriassOverlay.Policies
import SyntriassOverlay.Reassembly
import SyntriassOverlay.Limits
import SyntriassOverlay.Sending
import SyntriassOverlay.Truncation
import SyntriassOverlay.Admission
import SyntriassOverlay.SockEvent
import SyntriassOverlay.OverSocket
import SyntriassOverlay.Gauge
import SyntriassOverlay.Reuse
import SyntriassOverlay.Policy
import SyntriassOverlay.Crypto.Hex
import SyntriassOverlay.Crypto.Transcript
import SyntriassOverlay.Vectored
import SyntriassOverlay.FdPassing
import SyntriassOverlay.Preloading
import SyntriassOverlay.Lib.Ownership
import SyntriassOverlay.Daemon
import SyntriassOverlay.SecureChannel
import SyntriassOverlay.Decoding
import SyntriassOverlay.Inotify
import SyntriassOverlay.Inheritance
import SyntriassOverlay.Alerts
import SyntriassOverlay.Crypto.Provisioning
import SyntriassOverlay.Standstill
import SyntriassOverlay.Locking
import SyntriassOverlay.Deadlock
import SyntriassOverlay.Sections
