import Ssoa.Signature.Grammar
import Ssoa.Registry.Lookup
import Ssoa.Registry.Linearised
import Ssoa.Registry.Server
import Ssoa.Registry.Fairness
import Ssoa.Registry.Listener
import Ssoa.Registry.Sweep
import Ssoa.Service.Automaton
import Ssoa.Service.Installed
import Ssoa.Service.BlockSizes
import Ssoa.Provider.Startup
import Ssoa.Client.Rounds
import Ssoa.Storage.Concurrent
import Ssoa.Storage.Remote
import Ssoa.Storage.ImageList
import Ssoa.Storage.Nesting
import Ssoa.Storage.Containment
import Ssoa.Storage.Overwrite
import Ssoa.Storage.BasePath
