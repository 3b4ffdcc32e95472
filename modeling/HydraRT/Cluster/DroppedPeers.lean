import HydraRT.Cluster.PeerTable

/-!
# Dropped peers

A node that is missing from the last list keeps the load it last reported and
the failures since it last gave work.  Whether it is still asked for work is
therefore decided by the whole history: by the order of the first listings, by
the last reports, and by the attempts.
-/

namespace HydraRT.Cluster

open HydraRT.Lib
open HydraRT.Net (NodeInfo NodeListMsg)

section Dropped

variable {Score : Type} [LinearOrder Score] [Zero Score]

variable {self : NodeId} {events : List PeerEvent} {last : NodeListMsg}
  {thief : Thief}

end Dropped

end HydraRT.Cluster
