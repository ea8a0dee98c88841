import LvimKeyring.Lib.Transition
import LvimKeyring.Crypto
import LvimKeyring.Lib.LittleEndian
import LvimKeyring.Sealing
import LvimKeyring.Params
import LvimKeyring.Totp
import LvimKeyring.Server
import LvimKeyring.Lib.Codec
import LvimKeyring.Sample
import LvimKeyring.Atomicity
import LvimKeyring.Lib.Machine
import LvimKeyring.Wallet
import LvimKeyring.WalletRefines
import LvimKeyring.Daemon
import LvimKeyring.SaveRaces
import LvimKeyring.Parking
import LvimKeyring.Cancel
import LvimKeyring.Wakeup
import LvimKeyring.Announce
import LvimKeyring.Lifetime
import LvimKeyring.Editor
import LvimKeyring.Editors
import LvimKeyring.Wiring
import LvimKeyring.LockCache
import LvimKeyring.Attention
import LvimKeyring.Prompting
import LvimKeyring.Tamper
import LvimKeyring.BodyCodec
import LvimKeyring.Writing
import LvimKeyring.Crash
import LvimKeyring.WriteRaces
import LvimKeyring.CreateRaces
import LvimKeyring.Host
import LvimKeyring.Agents
import LvimKeyring.Ordering
import LvimKeyring.Mirror
import LvimKeyring.LockedView
import LvimKeyring.ValueView
import LvimKeyring.Likeness
import LvimKeyring.TotpView
import LvimKeyring.Backoff
import LvimKeyring.IdleLock
import LvimKeyring.Linger
import LvimKeyring.Migration
import LvimKeyring.Handover
import LvimKeyring.NoClobber
import LvimKeyring.Attempts
import LvimKeyring.Orphans
import LvimKeyring.Stale
import LvimKeyring.Answering
import LvimKeyring.Keys
import LvimKeyring.Lib.Lines
import LvimKeyring.Reading
import LvimKeyring.Correlation
import LvimKeyring.Exposure
import LvimKeyring.Vetting
import LvimKeyring.GitCredential
import LvimKeyring.GitOutput
import LvimKeyring.GitRuns
import LvimKeyring.GitStore
import LvimKeyring.GitForge
import LvimKeyring.Pool
import LvimKeyring.Generating
import LvimKeyring.TotpCode
import LvimKeyring.Lib.Base32
import LvimKeyring.TotpSecret
import LvimKeyring.AtOnce
import LvimKeyring.Framing
import LvimKeyring.Lib.LuaPattern
import LvimKeyring.EnvImport
import LvimKeyring.Options
import LvimKeyring.Clipboard
import LvimKeyring.OnePrompt
import LvimKeyring.Seclusion
import LvimKeyring.Linear
import LvimKeyring.Lib.Fair
import LvimKeyring.Liveness
import LvimKeyring.Backup
import LvimKeyring.Scopes
import LvimKeyring.Lib.Grouping
import LvimKeyring.Rows
import LvimKeyring.Panel
import LvimKeyring.PanelCalls
import LvimKeyring.PanelRows
import LvimKeyring.PanelAlive
import LvimKeyring.Upkeep
import LvimKeyring.PanelSync
import LvimKeyring.MasterPassword
import LvimKeyring.Environ
import LvimKeyring.JsonImport
