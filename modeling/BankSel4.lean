import BankSel4.Algorithm.Accounts
import BankSel4.Algorithm.Registry
import BankSel4.Algorithm.Run
import BankSel4.Auth.Equiv.Credentials
import BankSel4.Auth.Equiv.Names
import BankSel4.Bridge.Equiv.Delivery
import BankSel4.Bridge.Equiv.Once
import BankSel4.Gateway.Equiv.Requests
import BankSel4.Ledger.Equiv.AllOrNothing
import BankSel4.Ledger.Equiv.Audit
import BankSel4.Ledger.Equiv.Lines
import BankSel4.Ledger.Equiv.TakesEffect
import BankSel4.Ledger.Equiv.Types
import BankSel4.Network.Equiv.Interrupt
import BankSel4.Network.Equiv.Layout
import BankSel4.Network.Equiv.Packets
import BankSel4.Network.Equiv.Pool
import BankSel4.Network.Equiv.Rings
import BankSel4.Network.Equiv.Send
import BankSel4.Network.Equiv.Transmit
import BankSel4.Storage.Equiv.Access
import BankSel4.Storage.Equiv.ByteFile
import BankSel4.System.Equiv.Bookkeeping
import BankSel4.System.Equiv.Client
import BankSel4.System.Equiv.Counter
import BankSel4.System.Equiv.Dataport
import BankSel4.System.Equiv.Sessions
import BankSel4.System.Equiv.SqlBuffer
import BankSel4.Vfs.Equiv.Independence
import BankSel4.Vfs.Equiv.Length
import BankSel4.Vfs.Equiv.Offsets
