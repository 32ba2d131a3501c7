import Horus.Accounts.Restore
import Horus.Accounts.Throttle
import Horus.Capability.RevokeExact
import Horus.Scheduler.Budget
import Horus.Scheduler.Refill
import Horus.Scheduler.Split
import Horus.Kernel.Move
import Horus.Kernel.SplitParent
import Horus.Kernel.History
import Horus.Kernel.Authority
import Horus.Kernel.Ceiling
import Horus.Ipc.ReplyMint
import Horus.Ipc.SendFails
import Horus.Ipc.PipeCalls
import Horus.Memory.Regions
import Horus.Device.InterruptSafe
import Horus.Device.Registers
import Horus.Crypto.Aead
import Horus.Crypto.Hashes
import Horus.Storage.JournalErrors
import Horus.Storage.MerkleWrap
import Horus.Storage.Anchor
import Horus.Storage.GptFind
import Horus.Installer.Target
import Horus.Console.Input
import Horus.Session.Ends
import Horus.Paging.SwapSafe
import Horus.Paging.Sealed
