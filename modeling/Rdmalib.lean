import Rdmalib.Meta.Cursor
import Rdmalib.Rdma.Accept
import Rdmalib.Rdma.Release
import Rdmalib.Providers.Session
import Rdmalib.Readers.Custody
import Rdmalib.Readers.Instances
import Rdmalib.Readers.Order
import Rdmalib.Readers.Transfer
import Rdmalib.System.Turns
import Rdmalib.System.Tuples
import Rdmalib.System.Rendezvous
import Rdmalib.System.Sharing
import Rdmalib.Synch.Cluster
import Rdmalib.Synch.Leaving
import Rdmalib.Synch.Lockstep
