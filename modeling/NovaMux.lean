import NovaMux.Lib.Machine
import NovaMux.Lib.Reservation
import NovaMux.Lib.Wire
import NovaMux.Lib.Cover
import NovaMux.Lib.Utf8
import NovaMux.Lib.Word
import NovaMux.Lib.ByteStream
import NovaMux.Lib.Pipe
import NovaMux.Lib.Str
import NovaMux.Lib.Replay
import NovaMux.Lib.Except
import NovaMux.Lib.Canvas
import NovaMux.Lib.Pump
import NovaMux.Core.Session
import NovaMux.Core.Registry
import NovaMux.Core.Protocol
import NovaMux.Core.Input
import NovaMux.Core.CopyMode
import NovaMux.Runtime.LivePty
import NovaMux.Runtime.Hosted
import NovaMux.Runtime.App
import NovaMux.Runtime.Config
import NovaMux.Runtime.Render
import NovaMux.Runtime.Screensaver
import NovaMux.Runtime.Stream
import NovaMux.Runtime.Daemon
import NovaMux.Runtime.Link
import NovaMux.Runtime.EventLoop
import NovaMux.Runtime.RunAttached
import NovaMux.Runtime.Endpoint
import NovaMux.Runtime.Draw
import NovaMux.Runtime.Screen
import NovaMux.Runtime.Terminal
import NovaMux.Runtime.Host
import NovaMux.Runtime.Autostart
import NovaMux.Runtime.ConfigFile
import NovaMux.Runtime.BaseDir
import NovaMux.Runtime.Guards
import NovaMux.Runtime.Commands
import NovaMux.Runtime.Shell
import NovaMux.Runtime.Child
import NovaMux.Theorems.PaneTree
import NovaMux.Theorems.SessionRuns
import NovaMux.Theorems.Layout
import NovaMux.Theorems.TreeContext
import NovaMux.Theorems.Edits
import NovaMux.Theorems.Halving
import NovaMux.Theorems.Fields
import NovaMux.Theorems.Codec
import NovaMux.Theorems.RoundTrip
import NovaMux.Theorems.Streams
import NovaMux.Theorems.Registry
import NovaMux.Theorems.Routing
import NovaMux.Theorems.Runtimes
import NovaMux.Theorems.Hosted
import NovaMux.Theorems.App
import NovaMux.Theorems.Exits
import NovaMux.Theorems.Delivery
import NovaMux.Theorems.Sizes
import NovaMux.Theorems.Resources
import NovaMux.Theorems.Snapshots
import NovaMux.Theorems.Store
import NovaMux.Theorems.ConfigGrammar
import NovaMux.Theorems.Config
import NovaMux.Theorems.ConfigErrors
import NovaMux.Theorems.ConfigOrder
import NovaMux.Theorems.DaemonSteps
import NovaMux.Theorems.Reservations
import NovaMux.Theorems.Attachments
import NovaMux.Theorems.SplitFailures
import NovaMux.Theorems.CopyMode
import NovaMux.Theorems.Render
import NovaMux.Theorems.Detachments
import NovaMux.Theorems.Lockstep
import NovaMux.Theorems.Endpoints
import NovaMux.Theorems.Multiplexer
import NovaMux.Theorems.LocalMode
import NovaMux.Theorems.AttachedMode
import NovaMux.Theorems.Modes
import NovaMux.Theorems.TextCuts
import NovaMux.Theorems.Unambiguous
import NovaMux.Theorems.FocusCycle
import NovaMux.Theorems.Artwork
import NovaMux.Theorems.Idling
import NovaMux.Theorems.SceneStyle
import NovaMux.Theorems.Drawing
import NovaMux.Theorems.Pictures
import NovaMux.Theorems.Freshness
import NovaMux.Theorems.IdleScreen
import NovaMux.Theorems.Screens
import NovaMux.Theorems.Linearization
import NovaMux.Theorems.Isolation
import NovaMux.Theorems.Likeness
import NovaMux.Theorems.Progress
import NovaMux.Theorems.Scrollback
import NovaMux.Theorems.Host
import NovaMux.Theorems.Autostart
import NovaMux.Theorems.Keystrokes
import NovaMux.Theorems.Inputs
import NovaMux.Theorems.ConfigFile
import NovaMux.Theorems.BaseDir
import NovaMux.Theorems.Guards
import NovaMux.Theorems.Commands
import NovaMux.Theorems.Shell
import NovaMux.Theorems.Child
