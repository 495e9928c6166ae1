import NunchukWallet.Basic
import NunchukWallet.Coins.Replay
import NunchukWallet.Coins.Writes
import NunchukWallet.Coins.FirstLoop
import NunchukWallet.Coins.Order
import NunchukWallet.Coins.Conflict
import NunchukWallet.Coins.Origin
import NunchukWallet.Store.Vtx
import NunchukWallet.Store.Writers
import NunchukWallet.Store.Address
import NunchukWallet.Store.Cache
import NunchukWallet.Sync.Status
import NunchukWallet.Sync.Update
import NunchukWallet.Sync.Chain
import NunchukWallet.Store.Derived
import NunchukWallet.Sync.Grows
import NunchukWallet.Sync.NewAddress
import NunchukWallet.Store.CoinTables
import NunchukWallet.Store.CoinImport
import NunchukWallet.Store.CoinLinks
import NunchukWallet.Sync.NewAddressEnds
import NunchukWallet.Descriptor.Generate
import NunchukWallet.Descriptor.Parse
import NunchukWallet.Store.AddressData
import NunchukWallet.Coins.SendReceive
import NunchukWallet.Coins.Ancestry
import NunchukWallet.Descriptor.Timelock
import NunchukWallet.Descriptor.ScriptTree
import NunchukWallet.Descriptor.Musig
import NunchukWallet.Coins.View
import NunchukWallet.Coins.AddressBalance
import NunchukWallet.Descriptor.ScriptNode
import NunchukWallet.Store.Split
import NunchukWallet.Descriptor.MultiReadBack
import NunchukWallet.Store.Signers
import NunchukWallet.Store.CoinLock
import NunchukWallet.Descriptor.TaprootReadBack
import NunchukWallet.Sync.Branches
