import ChainTable.Local.Listing
import ChainTable.Local.OrderedInsert
import ChainTable.Concurrency.KeyListing
import ChainTable.Concurrency.ClientCount
import ChainTable.Concurrency.Shutdown
import ChainTable.Membership.SelectionLaws
import ChainTable.Membership.TableMerge
import ChainTable.Local.RowRange
import ChainTable.Server.Acknowledgement
import ChainTable.Server.ChainHistory
import ChainTable.Server.Canonical
import ChainTable.Server.InvokeContract
import ChainTable.Replication.ForwardingLaws
import ChainTable.Wire.Sending
import ChainTable.Wire.Capacity
import ChainTable.Wire.Failing
import ChainTable.Replication.ConnectionLaws
import ChainTable.Replication.Neighbours
import ChainTable.Replication.Joining
import ChainTable.Replication.FailoverLaws
import ChainTable.Server.Counting
import ChainTable.Concurrency.ThreadKey
import ChainTable.Membership.Callbacks
import ChainTable.Wire.KeyArray
import ChainTable.Wire.Writing
import ChainTable.Server.FreeEntries
import ChainTable.Server.DebugOutput
import ChainTable.Client.Sentences
import ChainTable.Client.Requests
import ChainTable.Pointers.LostCopies
import ChainTable.Membership.Settling
import ChainTable.Wire.WiredHistory
