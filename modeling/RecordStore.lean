import RecordStore.Derive.Expansion
import RecordStore.Feed
import RecordStore.Json.Printer
import RecordStore.Json.Reader
import RecordStore.Model.Argument
import RecordStore.Model.Catalog
import RecordStore.Proofs.Session.Simulation
import RecordStore.Proofs.Session.Update
import RecordStore.Proofs.Store.Delivery
import RecordStore.Proofs.Store.EditScript
import RecordStore.Proofs.Store.Failure
import RecordStore.Proofs.Store.Lineage
import RecordStore.Proofs.Store.Readability
import RecordStore.Session.Run
import RecordStore.Proofs.Store.Following
import RecordStore.Proofs.Field.Likeness
import RecordStore.Proofs.Json.FloatText
import RecordStore.Proofs.Json.Text
import RecordStore.Proofs.Model.PrimaryKey
import RecordStore.Proofs.Store.PrimaryKey
import RecordStore.Proofs.Feed.Rows
import RecordStore.Proofs.Feed.Publishing
import RecordStore.Proofs.Feed.Authorship
import RecordStore.Proofs.Field.Faithful
import RecordStore.Proofs.Model.Faithful
import RecordStore.Proofs.Store.ReadBack
import RecordStore.Proofs.Session.ReadBack
import RecordStore.Proofs.Store.StoredForm
import RecordStore.Proofs.Store.Bookkeeping
import RecordStore.Proofs.Session.Later
import RecordStore.Proofs.Session.Move
import RecordStore.Proofs.Session.Complete
import RecordStore.Proofs.Session.Effect
import RecordStore.Proofs.Session.Settled
import RecordStore.Proofs.Session.Held
import RecordStore.Proofs.Session.Course
import RecordStore.Proofs.Session.Lifecycle
import RecordStore.Proofs.Derive.SelfNamed
import RecordStore.Proofs.Session.Coherence
import RecordStore.Proofs.Store.Draining
import RecordStore.Proofs.Store.Commutation
import RecordStore.Proofs.Derive.Hygiene
import RecordStore.Proofs.Derive.Resolution
import RecordStore.Proofs.Derive.StoredFields
import RecordStore.Proofs.Store.Canonical
import RecordStore.Proofs.Derive.CanonicalText
import RecordStore.Proofs.Field.ObjectIdOrder
import RecordStore.Proofs.Derive.MarkerGrammar
import RecordStore.Proofs.Derive.RuntimePath
import RecordStore.Proofs.Store.Materialisation
import RecordStore.Proofs.Store.Representation
