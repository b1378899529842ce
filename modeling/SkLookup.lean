import SkLookup.Runs.Agreement
import SkLookup.Runs.Valid
import SkLookup.Runs.Quota
import SkLookup.Runs.Frozen
import SkLookup.Runs.RealListens
import SkLookup.Runs.OnePolicy
import SkLookup.Dataplane.Steering
import SkLookup.Loader.Audited
import SkLookup.Loader.Client
import SkLookup.Loader.Entry
import SkLookup.Runs.Listener
import SkLookup.Runs.Mutations
import SkLookup.Runs.FreezeRace
import SkLookup.Upgrade.Restored
import SkLookup.Upgrade.Named
import SkLookup.Ctl.Rival
import SkLookup.Effect.Gate
import SkLookup.Nginx.Hits
import SkLookup.Host.Slices
import SkLookup.Host.Missing
import SkLookup.Nginx.Expand
import SkLookup.Upgrade.Lasting
import SkLookup.Ctl.Status
import SkLookup.Host.Reading
import SkLookup.Loader.Listing
import SkLookup.Loader.Failures
import SkLookup.Codec.Tokens
import SkLookup.Nginx.Grammar
import SkLookup.Effect.Turns
import SkLookup.Upgrade.Herald
import SkLookup.Upgrade.OneAtATime
import SkLookup.Policy.Tighten
import SkLookup.Ctl.Import
import SkLookup.Desired.Union
import SkLookup.Host.Working
import SkLookup.Ctl.Close
import SkLookup.Ctl.Commute
import SkLookup.Upgrade.Retry
import SkLookup.Effect.Amid
import SkLookup.Effect.Cooperate
import SkLookup.Upgrade.Window
import SkLookup.Upgrade.Preflight
import SkLookup.Codec.Shell
import SkLookup.Fallback.Ports
import SkLookup.Codec.Lua
import SkLookup.Openresty.ExternalPort
import SkLookup.Base.Fill
import SkLookup.Base.Intervals
import SkLookup.Ctl.Document
import SkLookup.Host.Writers
import SkLookup.Ctl.Silent
import SkLookup.Ctl.Settings
import SkLookup.Ctl.Named
import SkLookup.Loader.Held
import SkLookup.Loader.Recovers
import SkLookup.Codec.Struct
import SkLookup.Elf.Object
import SkLookup.Elf.Patch
import SkLookup.Elf.Merge
import SkLookup.Elf.Maps
import SkLookup.Loader.Stands
import SkLookup.Base.Tries
import SkLookup.Base.Window
import SkLookup.Codec.Fields
import SkLookup.Effect.Errexit
import SkLookup.Effect.Mailbox
import SkLookup.Loader.Discovery
import SkLookup.Loader.Fresh
import SkLookup.Loader.Signals
import SkLookup.Recovery.Cases
import SkLookup.Recovery.Format
import SkLookup.Recovery.Storm
import SkLookup.Fallback.Lifecycle
import SkLookup.Loader.ControlSocket
