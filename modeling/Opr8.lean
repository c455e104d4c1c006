import Opr8.Xml
import Opr8.Dom.NodeType
import Opr8.Dom.Store
import Opr8.Dom.SibList
import Opr8.Dom.Shape
import Opr8.Dom.Node
import Opr8.Dom.Tree
import Opr8.Dom.Create
import Opr8.Dom.Navigate
import Opr8.Dom.Marshal
import Opr8.Dom.Builder
import Opr8.Dom.Build
import Opr8.Dom.BuilderSim
import Opr8.Dom.RoundTrip
import Opr8.Dom.Json
import Opr8.Dom.Kinds
import Opr8.Dom.Text
import Opr8.Dom.Unlinked
import Opr8.Dom.Remove
import Opr8.Dom.Move
import Opr8.Dom.Lookup
import Opr8.Datastore.Schema
import Opr8.Datastore.Decoder
import Opr8.Datastore.DecoderSim
import Opr8.Datastore.Balanced
import Opr8.Datastore.Modules
import Opr8.Session.Manager
import Opr8.Session.Tracking
import Opr8.Dom.Content
import Opr8.Dom.Mutation
