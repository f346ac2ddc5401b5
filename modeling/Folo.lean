import Folo.Syn.Token
import Folo.Syn.Punctuated
import Folo.Syn.Generics
import Folo.Syn.Item
import Folo.Linked.Object
import Folo.Linked.Expansion
import Folo.Linked.Runtime
import Folo.Linked.Semantics
import Folo.Linked.StdBox
import Folo.ManyCpus.SpawnOnAnyProcessors
